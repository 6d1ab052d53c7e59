import Stencil.Proofs.Pipeline.Spelling

/-!
# Reading canonical texts

A pipeline that is written as its canonical text is read back as it was.

* `Parses outer d gap s p` says that reading goes on with the text `s` in the draft `d`, behind a gap, and
  ends with the pipeline `p`; `Parses.token` puts a token in front. In a canonical text no gap is longer
  than one space.
* `parses_text`, `parses_command` and `parses_commands` put what is written in front of a text, by one
  induction over the pipeline: the draft behind it holds what was written.
* `parsePipeline_text` concludes for a whole statement.
-/

namespace Stencil

open Stencil.Expr

/-! ## Reading on -/

/-- The tokens do not begin with a sign that belongs to variables in front of a pipeline. -/
def GoesOn (ts : List Glued) : Prop :=
  ∀ t ∈ ts.head?, t.token ≠ .declare ∧ t.token ≠ .assign ∧ t.token ≠ .comma

theorem goesOn_cons {t : Token} (ht : t ≠ .declare ∧ t ≠ .assign ∧ t ≠ .comma) (glued : Bool)
    (ts : List Glued) : GoesOn (⟨t, glued⟩ :: ts) := fun u hu => by
  cases hu
  exact ht

/-- What stands in front of such tokens is no variable of the pipeline. -/
theorem start_cons {ts : List Glued} (h : GoesOn ts) (t : Glued) :
    Draft.start (t :: ts) = ({}, 0) := by
  unfold Draft.start
  split
  · next heq => simp [GoesOn, (List.cons.inj heq).2] at h
  · next heq => simp [GoesOn, (List.cons.inj heq).2] at h
  · next heq => simp [GoesOn, (List.cons.inj heq).2] at h
  · next heq => simp [GoesOn, (List.cons.inj heq).2] at h
  · rfl

/-- Reading goes on with the text `s` behind a gap, in the draft `d` inside the drafts `outer`, and gives
the pipeline `p`. -/
def Parses (outer : List Draft) (d : Draft) (gap : Option UInt32) (s : List Char) (p : Pipeline) :
    Prop :=
  ∃ ts, Reads gap s ts ∧ GoesOn ts ∧ Draft.start ts = ({}, 0) ∧ Draft.read outer d 0 ts = .ok p

variable {outer : List Draft} {d : Draft} {gap : Option UInt32} {rest : List Char} {p : Pipeline}

theorem Parses.space (h : Parses outer d (some 1) rest p) :
    Parses outer d (some 0) (' ' :: rest) p :=
  let ⟨ts, hreads, hparses⟩ := h
  ⟨ts, hreads.behind_space, hparses⟩

theorem Parses.token {outer' : List Draft} {d' : Draft} {token : Token} {spelling : List Char}
    (hspells : Spells token spelling rest)
    (htoken : token ≠ .declare ∧ token ≠ .assign ∧ token ≠ .comma)
    (h : Parses outer' d' (some 0) rest p)
    (hstep : ∀ ts, Draft.read outer d 0 (⟨token, gap = some 0⟩ :: ts) = Draft.read outer' d' 0 ts) :
    Parses outer d gap (spelling ++ rest) p := by
  obtain ⟨ts, hreads, hgoes, -, hp⟩ := h
  exact ⟨_, .spelled hspells hreads gap, goesOn_cons htoken _ _, start_cons hgoes _,
    (hstep ts).trans hp⟩

/-- A pipeline without variables in front begins like any text inside of it. -/
theorem Parses.opens (h : Parses outer {} gap rest p) : Opens outer gap rest p := by
  obtain ⟨ts, hreads, -, hstart, hp⟩ := h
  refine ⟨ts, hreads, ?_⟩
  rw [hstart]
  exact hp

/-- The end of a statement. -/
theorem parses_nil {d' : Draft} (h : d.endCommand = .ok d') : Parses [] d (some 0) [] d'.finish := by
  refine ⟨[], .done, nofun, rfl, ?_⟩
  rw [Draft.read, h]
  rfl

/-- A closing parenthesis ends the innermost group. -/
theorem parses_closeParen {o d' : Draft} (hend : d.endCommand = .ok d')
    (h : Parses outer (o.push (.group d'.finish [])) (some 0) rest p) :
    Parses (o :: outer) d gap (')' :: rest) p := by
  have hspells : Spells .closeParen [')'] rest := ⟨')', rest, _, rfl, rfl, rfl, rfl, rfl⟩
  refine .token hspells (by simp) h fun ts => ?_
  rw [Draft.read]
  simp only [hend]
  rfl

/-- An opening parenthesis begins a group. -/
theorem parses_openParen (hroom : outer.length < Draft.maxDepth)
    (h : Opens (d :: outer) (some 0) rest p) : Parses outer d gap ('(' :: rest) p := by
  have hspells : Spells .openParen ['('] rest := ⟨'(', rest, _, rfl, rfl, rfl, rfl, rfl⟩
  obtain ⟨ts, hreads, hp⟩ := h
  refine ⟨_, .spelled hspells hreads gap, goesOn_cons (by simp) _ _, rfl, ?_⟩
  rw [Draft.read]
  simp only [if_neg (Nat.not_le.2 hroom)]
  exact hp

/-- A bar ends a command. -/
theorem parses_pipe {d' : Draft} (hend : d.endCommand = .ok d')
    (h : Parses outer d' (some 0) rest p) : Parses outer d gap ('|' :: rest) p := by
  have hspells : Spells .pipe ['|'] rest := ⟨'|', rest, _, rfl, rfl, rfl, rfl, rfl⟩
  refine .token hspells (by simp) h fun ts => ?_
  rw [Draft.read]
  simp only [hend]
  rfl

theorem read_word (name : String) (glued : Bool) (ts : List Glued) :
    Draft.read outer d 0 (⟨.word name, glued⟩ :: ts) =
      Draft.read outer (d.push (Draft.wordOperand name)) 0 ts := rfl

/-! ## Fields -/

theorem endsWord_fieldsText (h : EndsWord rest) (names : List String) :
    EndsWord (fieldsText names ++ rest) := by
  cases names with
  | nil => exact h
  | cons name names => exact endsWord_cons rfl _

/-- Fields right behind an operand that takes them. -/
theorem parses_fields {e : List String → Expr}
    (he : ∀ (d : Draft) fields name, (d.push (e fields)).pushField name true =
      .ok (d.push (e (fields ++ [name])))) {names : List String}
    (hnames : names.all isIdentifier = true) (hrest : EndsWord rest) : ∀ fields : List String,
      Parses outer (d.push (e (fields ++ names))) (some 0) rest p →
      Parses outer (d.push (e fields)) (some 0) (fieldsText names ++ rest) p := by
  induction names with
  | nil =>
    intro fields h
    rwa [List.append_nil] at h
  | cons name names ih =>
    intro fields h
    rw [List.all_cons, Bool.and_eq_true] at hnames
    have htext : fieldsText (name :: names) ++ rest =
        ('.' :: name.toList) ++ (fieldsText names ++ rest) := by
      simp [fieldsText]
    have hbehind := ih hnames.2 (fields ++ [name]) (by simpa using h)
    rw [htext]
    refine .token (spells_field hnames.1 (endsWord_fieldsText hrest names)) (by simp) hbehind
      fun ts => ?_
    rw [Draft.read]
    simp only [decide_true, he]
    rfl

/-! ## Variables in front -/

/-- The sign behind the variables in front of a pipeline. -/
theorem reads_sign (assigns : Bool) {ts : List Glued} (h : Reads (some 1) rest ts) :
    Reads (some 0) ((if assigns then " = " else " := ").toList ++ rest)
      (⟨if assigns then .assign else .declare, false⟩ :: ts) := by
  cases assigns with
  | true =>
    have hspells : Spells .assign ['='] (' ' :: rest) := ⟨'=', _, _, rfl, rfl, rfl, rfl, rfl⟩
    exact .behind_space (.spelled hspells h.behind_space (some 1))
  | false =>
    have hspells : Spells .declare [':', '='] (' ' :: rest) := ⟨':', _, _, rfl, rfl, rfl, rfl, rfl⟩
    exact .behind_space (.spelled hspells h.behind_space (some 1))

theorem endsWord_sign (assigns : Bool) (rest : List Char) :
    EndsWord ((if assigns then " = " else " := ").toList ++ rest) := by
  cases assigns <;> exact endsWord_cons rfl _

theorem opens_targets {assigns : Bool} {targets : List String}
    (hformed : targetsFormed assigns targets = true)
    (h : ∀ gap, Parses outer { targets, assigns } gap rest p) :
    Opens outer gap (targetsText assigns targets ++ rest) p := by
  simp only [targetsFormed, Bool.and_eq_true] at hformed
  obtain ⟨⟨hlength, hnames⟩, hassigns⟩ := hformed
  obtain ⟨ts, hreads, -, -, hp⟩ := h (some 1)
  match targets with
  | [] =>
    obtain rfl : assigns = false := by simpa using hassigns
    exact (h gap).opens
  | [a] =>
    have ha : isVariableName a = true := by simpa using hnames
    have htext : targetsText assigns [a] ++ rest =
        ('$' :: a.toList) ++ ((if assigns then " = " else " := ").toList ++ rest) := by
      simp [targetsText]
    rw [htext]
    refine ⟨_, .spelled (spells_variable ha (endsWord_sign assigns rest)) (reads_sign assigns hreads)
      gap, ?_⟩
    cases assigns <;> exact hp
  | [a, b] =>
    obtain ⟨ha, hb⟩ : isVariableName a = true ∧ isVariableName b = true := by simpa using hnames
    have htext : targetsText assigns [a, b] ++ rest = ('$' :: a.toList) ++ ([','] ++ (' ' ::
        (('$' :: b.toList) ++ ((if assigns then " = " else " := ").toList ++ rest)))) := by
      simp [targetsText]
    have hcomma : ∀ s, Spells .comma [','] s := fun s => ⟨',', s, _, rfl, rfl, rfl, rfl, rfl⟩
    rw [htext]
    refine ⟨_, .spelled (spells_variable ha (endsWord_cons rfl _)) (.spelled (hcomma _)
      (.behind_space (.spelled (spells_variable hb (endsWord_sign assigns rest))
        (reads_sign assigns hreads) (some 1))) (some 0)) gap, ?_⟩
    cases assigns <;> exact hp
  | _ :: _ :: _ :: _ => simp at hlength

/-! ## Operands and commands -/

theorem commandFormed_ne_nil {c : List Expr} (hc : commandFormed c = true) : c ≠ [] := by
  rintro rfl
  cases hc

theorem endCommand_of_formed {c : List Expr} (hc : commandFormed c = true) :
    { d with operands := c.reverse }.endCommand =
      .ok { d with commands := c :: d.commands, operands := [] } := by
  unfold Draft.endCommand
  simp only [List.reverse_reverse]
  split
  · cases hc
  · cases hc
  · rfl

/-- A constant is a token of its own. -/
theorem parses_const {v : Value} (hv : v.isLiteral = true) (hrest : EndsOperand rest)
    (h : Parses outer (d.push (.const v)) (some 0) rest p) :
    Parses outer d gap (v.literal ++ rest) p := by
  have hword : ∀ name : String, isIdentifier name = true → Draft.wordOperand name = .const v →
      Parses outer d gap (name.toList ++ rest) p := by
    intro name hname hoperand
    refine .token (spells_word hname hrest.endsWord) (by simp) h fun ts => ?_
    rw [read_word, hoperand]
  match v with
  | .none => exact hword "nil" rfl rfl
  | .bool true => exact hword "true" rfl rfl
  | .bool false => exact hword "false" rfl rfl
  | .int n => exact .token (spells_int (of_decide_eq_true hv) hrest) (by simp) h fun _ => rfl
  | .string s false =>
    rcases spells_text s rest with hspells | hspells
    · exact .token hspells (by simp) h fun _ => rfl
    · exact .token hspells (by simp) h fun _ => rfl
  | .string _ true => cases hv
  | .undefined => cases hv
  | .float _ => cases hv
  | .list _ => cases hv
  | .map _ => cases hv
  | .fallback _ => cases hv

theorem field_text_append (name : String) (names : List String) (rest : List Char) :
    (Expr.field (name :: names)).text ++ rest =
      ('.' :: name.toList) ++ (fieldsText names ++ rest) := by
  simp [text, fieldsText]

theorem variable_text_append (name : String) (fields : List String) (rest : List Char) :
    (Expr.variable name fields).text ++ rest =
      ('$' :: name.toList) ++ (fieldsText fields ++ rest) := by
  simp [text]

/-- A chain of fields; a field that touches a token is an operand of its own if there is none before
it. -/
theorem parses_field {name : String} {names : List String} (hname : isIdentifier name = true)
    (hnames : names.all isIdentifier = true) (hgap : gap = some 0 → d.operands = [])
    (hrest : EndsOperand rest) (h : Parses outer (d.push (.field (name :: names))) (some 0) rest p) :
    Parses outer d gap ((Expr.field (name :: names)).text ++ rest) p := by
  have hbehind : Parses outer (d.push (.field [name])) (some 0) (fieldsText names ++ rest) p :=
    parses_fields (fun _ _ _ => rfl) hnames hrest.endsWord [name] h
  have hpush : d.pushField name (gap = some 0) = .ok (d.push (.field [name])) := by
    by_cases hzero : gap = some 0
    · unfold Draft.pushField
      rw [decide_eq_true hzero, hgap hzero]
      unfold Draft.push
      rw [hgap hzero]
      rfl
    · rw [decide_eq_false hzero]
      rfl
  rw [field_text_append]
  refine .token (spells_field hname (endsWord_fieldsText hrest.endsWord names)) (by simp) hbehind
    fun ts => ?_
  rw [Draft.read]
  simp only [hpush]
  rfl

/-- A variable with fields behind it. -/
theorem parses_variable {name : String} {fields : List String} (hname : isVariableName name = true)
    (hfields : fields.all isIdentifier = true) (hrest : EndsOperand rest)
    (h : Parses outer (d.push (.variable name fields)) (some 0) rest p) :
    Parses outer d gap ((Expr.variable name fields).text ++ rest) p := by
  have hbehind : Parses outer (d.push (.variable name [])) (some 0) (fieldsText fields ++ rest) p :=
    parses_fields (fun _ _ _ => rfl) hfields hrest.endsWord [] h
  rw [variable_text_append]
  exact .token (spells_variable hname (endsWord_fieldsText hrest.endsWord fields)) (by simp) hbehind
    fun _ => rfl

/-- A function that is called no constant. -/
theorem parses_call {name : String} (hname : isIdentifier name = true)
    (hconstant : isConstantWord name = false) (hrest : EndsOperand rest)
    (h : Parses outer (d.push (.call name)) (some 0) rest p) :
    Parses outer d gap (name.toList ++ rest) p := by
  simp only [isConstantWord, Bool.or_eq_false_iff, decide_eq_false_iff_not] at hconstant
  obtain ⟨⟨htrue, hfalse⟩, hnil⟩ := hconstant
  refine .token (spells_word hname hrest.endsWord) (by simp) h fun ts => ?_
  have hoperand : Draft.wordOperand name = .call name := by
    simp [Draft.wordOperand, htrue, hfalse, hnil]
  rw [read_word, hoperand]

mutual

theorem parses_text {room : Nat} : ∀ {x : Expr} {outer : List Draft} {d : Draft} {gap : Option UInt32}
    {rest : List Char}, x.isFormed Value.isLiteral room = true →
      outer.length + room ≤ Draft.maxDepth → (gap = some 0 → d.operands = []) →
      EndsOperand rest → Parses outer (d.push x) (some 0) rest p →
      Parses outer d gap (x.text ++ rest) p
  | .dot, _, _, _, _, _, _, _, hrest, h =>
    .token (spells_dot hrest.endsWord) (by simp) h fun _ => rfl
  | .field [], _, _, _, _, hx, _, _, _, _ => by simp [isFormed] at hx
  | .field (name :: names), _, _, _, _, hx, _, hgap, hrest, h => by
    simp only [isFormed, List.all_cons, Bool.and_eq_true] at hx
    exact parses_field hx.2.1 hx.2.2 hgap hrest h
  | .variable name fields, _, _, _, _, hx, _, _, hrest, h => by
    rw [isFormed, Bool.and_eq_true] at hx
    exact parses_variable hx.1 hx.2 hrest h
  | .call name, _, _, _, _, hx, _, _, hrest, h => by
    rw [isFormed, Bool.and_eq_true, Bool.not_eq_true'] at hx
    exact parses_call hx.1 hx.2 hrest h
  | .const v, _, _, _, _, hx, _, _, hrest, h => parses_const hx hrest h
  | .group ⟨targets, assigns, cs⟩ fields, outer, d, gap, rest, hx, hroom, _, hrest, h => by
    simp only [isFormed, Bool.and_eq_true, decide_eq_true_eq] at hx
    obtain ⟨⟨⟨⟨hpos, htargets⟩, hcs⟩, hformed⟩, hfields⟩ := hx
    have htext : (Expr.group ⟨targets, assigns, cs⟩ fields).text ++ rest =
        '(' :: (targetsText assigns targets ++
          (commandsText cs ++ ')' :: (fieldsText fields ++ rest))) := by
      simp [text]
    have hbehind : Parses outer (d.push (.group ⟨targets, assigns, cs⟩ [])) (some 0)
        (fieldsText fields ++ rest) p :=
      parses_fields (fun _ _ _ => rfl) hfields hrest.endsWord [] h
    rw [htext]
    refine parses_openParen (by omega) (opens_targets htargets fun gap => ?_)
    refine parses_commands (by simpa using hcs) hformed (by simp only [List.length_cons]; omega) rfl
      (endsOperand_paren _) fun d' hd' => parses_closeParen hd' ?_
    simpa [Draft.finish] using hbehind

theorem parses_command {room : Nat} : ∀ {c : List Expr} {outer : List Draft} {d : Draft}
    {gap : Option UInt32} {rest : List Char}, c ≠ [] →
      operandsFormed Value.isLiteral room c = true →
      outer.length + room ≤ Draft.maxDepth → (gap = some 0 → d.operands = []) →
      EndsOperand rest → Parses outer { d with operands := c.reverse ++ d.operands } (some 0) rest p →
      Parses outer d gap (commandText c ++ rest) p
  | [], _, _, _, _, hne, _, _, _, _, _ => absurd rfl hne
  | [x], _, _, _, _, _, hc, hroom, hgap, hrest, h => by
    simp only [operandsFormed, Bool.and_true] at hc
    exact parses_text hc hroom hgap hrest h
  | x :: y :: ys, outer, d, gap, rest, _, hc, hroom, hgap, hrest, h => by
    rw [operandsFormed, Bool.and_eq_true] at hc
    have htext : commandText (x :: y :: ys) ++ rest =
        x.text ++ ' ' :: (commandText (y :: ys) ++ rest) := by
      simp [commandText]
    have hbehind : Parses outer (d.push x) (some 1) (commandText (y :: ys) ++ rest) p :=
      parses_command (List.cons_ne_nil _ _) hc.2 hroom nofun hrest (by simpa [Draft.push] using h)
    rw [htext]
    exact parses_text hc.1 hroom hgap (endsOperand_space _) hbehind.space

theorem parses_commands {room : Nat} : ∀ {cs : List (List Expr)} {outer : List Draft} {d : Draft}
    {gap : Option UInt32} {rest : List Char}, cs ≠ [] →
      commandsFormed Value.isLiteral room cs = true →
      outer.length + room ≤ Draft.maxDepth → d.operands = [] → EndsOperand rest →
      (∀ d', d'.endCommand = .ok { d with commands := cs.reverse ++ d.commands } →
        Parses outer d' (some 0) rest p) →
      Parses outer d gap (commandsText cs ++ rest) p
  | [], _, _, _, _, hne, _, _, _, _, _ => absurd rfl hne
  | [c], outer, d, gap, rest, _, hcs, hroom, hd, hrest, h => by
    simp only [commandsFormed, Bool.and_eq_true, Bool.and_true] at hcs
    have hbehind : Parses outer { d with operands := c.reverse } (some 0) rest p := by
      refine h _ ((endCommand_of_formed hcs.1).trans ?_)
      simp [hd]
    exact parses_command (commandFormed_ne_nil hcs.1) hcs.2 hroom (fun _ => hd) hrest
      (by simpa [hd] using hbehind)
  | c :: c' :: cs, outer, d, gap, rest, _, hcs, hroom, hd, hrest, h => by
    rw [commandsFormed, Bool.and_eq_true, Bool.and_eq_true] at hcs
    have htext : commandsText (c :: c' :: cs) ++ rest =
        commandText c ++ ' ' :: '|' :: ' ' :: (commandsText (c' :: cs) ++ rest) := by
      simp [commandsText]
    have hbehind : Parses outer { d with commands := c :: d.commands, operands := [] } (some 1)
        (commandsText (c' :: cs) ++ rest) p :=
      parses_commands (List.cons_ne_nil _ _) hcs.2 hroom rfl hrest fun d' hd' =>
        h d' (hd'.trans (by simp [hd]))
    rw [htext]
    refine parses_command (commandFormed_ne_nil hcs.1.1) hcs.1.2 hroom (fun _ => hd)
      (endsOperand_space _) ?_
    rw [hd, List.append_nil]
    exact (parses_pipe (endCommand_of_formed hcs.1.1) hbehind.space).space

end

/-- **Reading undoes writing** for a whole statement. -/
theorem parsePipeline_text {p : Pipeline}
    (hp : p.isFormed Value.isLiteral Draft.maxDepth = true) : parsePipeline p.text = .ok p := by
  obtain ⟨targets, assigns, cs⟩ := p
  simp only [Pipeline.isFormed, Bool.and_eq_true] at hp
  obtain ⟨⟨htargets, hcs⟩, hformed⟩ := hp
  have hopens : Opens [] none (targetsText assigns targets ++ (commandsText cs ++ []))
      ⟨targets, assigns, cs⟩ := by
    refine opens_targets htargets fun gap => ?_
    refine parses_commands (by simpa using hcs) hformed (by simp) rfl endsOperand_nil fun d' hd' => ?_
    simpa [Draft.finish] using parses_nil hd'
  rw [parsePipeline_eq_ok_iff, Pipeline.text]
  simpa using hopens

end Stencil
