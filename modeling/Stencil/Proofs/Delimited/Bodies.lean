import Stencil.Proofs.Delimited.Balance
import Stencil.Proofs.Delimited.Compiling
import Stencil.Proofs.Pipeline.Reading

/-!
# Bodies in a source

What stands between two actions of a source is scanned as if it stood alone, unless a delimiter is
found elsewhere than it was written.

* `IsBody source` says that a source can stand in a branch: no action goes on behind it, and its blocks
  are its own.
* `Segment.scan_body` scans a body with an action behind it.
* With double braces there is one exception: behind an opening brace the action begins a brace too
  early. `Segment.scan_braced` finds the brace in a statement, and `compile_braced` says that such a
  statement cannot be compiled.
-/

namespace Stencil.Delimited

open Text (lineFeeds)

namespace Segment

variable {d : Delimiters} {trimmed : Bool} {line : Nat} {s before t inner rest marked : List Char}
  {first last : Bool}

/-! ## The next action -/

/-- The text in front of an action, trimmed at its marks. -/
def textBefore (trimmed first : Bool) (before : List Char) : List Char :=
  let text := if trimmed then Text.trimStart before else before
  if first then Text.trimEnd text else text

/-- A source that begins with a text and an action is scanned behind the action. -/
theorem scan_next (hopening : Text.cut? d.opening s = some (before, t))
    (hclosing : Text.cut? d.closing t = some (inner, rest))
    (hmarks : trimMarks inner = (marked, first, last)) :
    scan d trimmed line s =
      if opensComment (Text.trim marked) && !closesComment (Text.trim marked) then
        .error { cause := .unclosedComment, line := line + lineFeeds before }
      else do
        let segments ← scan d last (line + lineFeeds before +
          lineFeeds (d.opening ++ inner ++ d.closing)) rest
        return ofText (textBefore trimmed first before) ++
          ((if opensComment (Text.trim marked) then []
            else [.action (Text.trim marked) (line + lineFeeds before)]) ++ segments) := by
  rw [scan]
  split
  · next heq => simp [hopening] at heq
  · next before' t' heq =>
    obtain ⟨rfl, rfl⟩ : before = before' ∧ t = t' := by simpa [hopening] using heq
    split
    · next heq' => simp [hclosing] at heq'
    · next inner' rest' heq' =>
      obtain ⟨rfl, rfl⟩ : inner = inner' ∧ rest = rest' := by simpa [hclosing] using heq'
      simp only [hmarks, textBefore]
      cases opensComment (Text.trim marked) <;> cases closesComment (Text.trim marked) <;> simp <;> rfl

/-- An action that is left open is a fault. -/
theorem scan_unclosed (hopening : Text.cut? d.opening s = some (before, t))
    (hclosing : Text.cut? d.closing t = none) :
    scan d trimmed line s = .error { cause := .unclosedAction, line := line + lineFeeds before } := by
  rw [scan]
  split
  · next heq => simp [hopening] at heq
  · next before' t' heq =>
    obtain ⟨rfl, rfl⟩ : before = before' ∧ t = t' := by simpa [hopening] using heq
    split
    · rfl
    · next heq' => simp [hclosing] at heq'

theorem scan_last (h : Text.cut? d.opening s = none) :
    scan d trimmed line s = .ok (ofText (if trimmed then Text.trimStart s else s)) := by
  rw [scan]
  split
  · rfl
  · next heq => simp [h] at heq

/-! ## Sources with an action behind them -/

/-- No action of the source is left open. -/
def Whole (d : Delimiters) (trimmed : Bool) (line : Nat) (s : List Char) : Prop :=
  ∀ f, scan d trimmed line s = .error f → f.cause ≠ .unclosedAction

/-- A statement between spaces, as it is written. -/
theorem scan_spoken {statement : List Char} (hclosing : Text.IsWord d.closing) (hs : Clear d s)
    (hstatement : Spoken d statement) :
    scan d trimmed line (s ++ (source d (.action statement 0) ++ rest)) = do
      let segments ← scan d trimmed line s
      let more ← scan d false (line + lineFeeds (s ++ source d (.action statement 0))) rest
      return segments ++ .action statement (line + lineFeeds s) :: more := by
  have hfound := Text.cut?_append hs (' ' :: (statement ++ ' ' :: (d.closing ++ rest)))
  have hsource : s ++ (source d (.action statement 0) ++ rest) =
      s ++ d.opening ++ ' ' :: (statement ++ ' ' :: (d.closing ++ rest)) := by
    simp [source]
  have htrim : Text.trim (' ' :: (statement ++ [' '])) = statement :=
    hstatement.tight.trim_padded (v := [' ']) (w := [' ']) rfl rfl
  rw [hsource, scan_next hfound (cut?_closing hclosing hstatement.closing _)
    (trimMarks_padded statement), scan_last hs.cut?_eq_none, htrim, hstatement.comment]
  have hline : line + lineFeeds s + lineFeeds (d.opening ++ ' ' :: (statement ++ [' ']) ++ d.closing) =
      line + lineFeeds (s ++ source d (.action statement 0)) := by
    simp [source, Text.lineFeeds_append, Nat.add_assoc]
  rw [hline]
  simp [textBefore, bind, Except.bind, pure, Except.pure]

theorem Whole.closed (h : Whole d trimmed line s) (hopening : Text.cut? d.opening s = some (before, t)) :
    ∃ inner rest, Text.cut? d.closing t = some (inner, rest) := by
  cases hclosing : Text.cut? d.closing t with
  | none => exact absurd rfl (h _ (scan_unclosed hopening hclosing))
  | some p => exact ⟨p.1, p.2, rfl⟩

/-- A source is scanned up to its next action, whatever stands behind it. -/
theorem exists_next (trimmed : Bool) (line : Nat) (hopening : Text.cut? d.opening s = some (before, t))
    (hclosing : Text.cut? d.closing t = some (inner, rest)) :
    (∃ f, ∀ more, scan d trimmed line (s ++ more) = .error f) ∨
      ∃ segments last, ∀ more, scan d trimmed line (s ++ more) =
        (scan d last (line + lineFeeds before + lineFeeds (d.opening ++ inner ++ d.closing))
          (rest ++ more)).map (segments ++ ·) := by
  obtain ⟨marked, first, last, hmarks⟩ : ∃ marked first last,
    trimMarks inner = (marked, first, last) := ⟨_, _, _, rfl⟩
  cases hcomment : opensComment (Text.trim marked) && !closesComment (Text.trim marked) with
  | true =>
    refine .inl ⟨{ cause := .unclosedComment, line := line + lineFeeds before }, fun more => ?_⟩
    rw [scan_next (Text.cut?_append hopening more) (Text.cut?_append hclosing more) hmarks, hcomment]
    rfl
  | false =>
    refine .inr ⟨ofText (textBefore trimmed first before) ++
      (if opensComment (Text.trim marked) then []
        else [.action (Text.trim marked) (line + lineFeeds before)]), last, fun more => ?_⟩
    rw [scan_next (Text.cut?_append hopening more) (Text.cut?_append hclosing more) hmarks, hcomment]
    simp only [Bool.false_eq_true, if_false, List.append_assoc]
    rfl

/-- A source is scanned up to the text behind its last action, whatever stands behind it. -/
theorem exists_lastText (hs : Whole d trimmed line s) :
    (∃ f, ∀ more, scan d trimmed line (s ++ more) = .error f) ∨
      ∃ segments trimmed' line' text, (text = s ∨ d.closing ++ text <:+ s) ∧
        Text.cut? d.opening text = none ∧ line' + lineFeeds text = line + lineFeeds s ∧
        ∀ more, scan d trimmed line (s ++ more) =
          (scan d trimmed' line' (text ++ more)).map (segments ++ ·) := by
  induction hlength : s.length using Nat.strongRecOn generalizing s trimmed line with
  | ind n ih =>
    subst hlength
    cases hopening : Text.cut? d.opening s with
    | none =>
      refine .inr ⟨[], trimmed, line, s, .inl rfl, hopening, rfl, fun more => ?_⟩
      cases scan d trimmed line (s ++ more) <;> rfl
    | some p =>
      obtain ⟨before, t⟩ := p
      obtain ⟨inner, rest, hinner⟩ := hs.closed hopening
      have hsource : s = before ++ d.opening ++ inner ++ d.closing ++ rest := by
        rw [Text.cut?_eq_append hopening, Text.cut?_eq_append hinner]
        simp only [List.append_assoc]
      have hshorter : rest.length < s.length := Nat.lt_trans
        (Text.cut?_length_lt d.closing_ne_nil hinner) (Text.cut?_length_lt d.opening_ne_nil hopening)
      rcases exists_next trimmed line hopening hinner with hfault | ⟨head, last, hnext⟩
      · exact .inl hfault
      · -- What stands behind the action is shorter, and no action of it is left open either.
        have hrest : Whole d last
            (line + lineFeeds before + lineFeeds (d.opening ++ inner ++ d.closing)) rest := by
          intro f hf
          refine hs f ?_
          have hself := hnext []
          rw [List.append_nil, List.append_nil, hf] at hself
          exact hself
        rcases ih rest.length hshorter hrest rfl with
          ⟨f, hf⟩ | ⟨segments, trimmed', line', text, htext, hnone, hlines, hscan⟩
        · exact .inl ⟨f, fun more => by rw [hnext, hf]; rfl⟩
        · have hbehind : d.closing ++ text <:+ s := by
            rcases htext with rfl | hsuffix
            · exact ⟨before ++ d.opening ++ inner, by simp [hsource]⟩
            · exact hsuffix.trans ⟨_, hsource.symm⟩
          refine .inr ⟨head ++ segments, trimmed', line', text, .inr hbehind, hnone, ?_, fun more => ?_⟩
          · rw [hlines, hsource]
            simp only [Text.lineFeeds_append]
            omega
          · rw [hnext, hscan]
            cases scan d trimmed' line' (text ++ more) with
            | error f => rfl
            | ok segments => simp [Except.map]

/-- **A source with an action behind it is scanned as if it stood alone**, and the action is found where
it was written. -/
theorem scan_append {statement : List Char} (hclosing : Text.IsWord d.closing)
    (hclear : ∀ text, text <:+ s → Text.cut? d.opening text = none → Clear d text)
    (hstatement : Spoken d statement) (hs : Whole d trimmed line s) (rest : List Char) :
    scan d trimmed line (s ++ (source d (.action statement 0) ++ rest)) = do
      let segments ← scan d trimmed line s
      let more ← scan d false (line + lineFeeds (s ++ source d (.action statement 0))) rest
      return segments ++ .action statement (line + lineFeeds s) :: more := by
  rcases exists_lastText hs with ⟨f, hf⟩ | ⟨done, trimmed', line', text, htext, hnone, hlines, hscan⟩
  · have hself := hf []
    rw [List.append_nil] at hself
    rw [hf, hself]
    rfl
  · have hself := hscan []
    rw [List.append_nil, List.append_nil, scan_last hnone] at hself
    have hsuffix : text <:+ s := htext.elim (fun h => h ▸ List.suffix_refl s)
      (List.suffix_append d.closing text).trans
    rw [hscan, scan_spoken hclosing (hclear text hsuffix hnone) hstatement, hself, scan_last hnone,
      Text.lineFeeds_append, Text.lineFeeds_append, ← Nat.add_assoc, ← Nat.add_assoc, hlines]
    cases scan d false (line + lineFeeds s + lineFeeds (source d (.action statement 0))) rest with
    | error f => rfl
    | ok segments => simp [Except.map, bind, Except.bind, pure, Except.pure]

/-! ## Braces -/

section Braces

variable {statement : List Char}

/-- Double braces are found behind a text, unless they are found a brace earlier. -/
theorem cut?_braces (h : Text.cut? Delimiters.standard.opening (s ++ ['\x7b']) = none) (t : List Char) :
    Text.cut? Delimiters.standard.opening (s ++ '\x7b' :: '\x7b' :: t) = some (s, t) := by
  change Text.cut? ['\x7b', '\x7b'] _ = none at h
  change Text.cut? ['\x7b', '\x7b'] _ = _
  induction s with
  | nil => exact Text.cut?_self t
  | cons c s ih =>
    rw [List.cons_append, Text.cut?] at h
    cases hafter : Text.after? ['\x7b', '\x7b'] (c :: (s ++ ['\x7b'])) with
    | some r => simp [hafter] at h
    | none =>
      simp only [hafter, Option.map_eq_none_iff] at h
      have hmore : Text.after? ['\x7b', '\x7b'] (c :: (s ++ '\x7b' :: '\x7b' :: t)) = none := by
        cases s <;> simp [Text.after?] at hafter ⊢ <;> assumption
      rw [List.cons_append, Text.cut?, hmore, ih h]
      rfl

/-- A text is clear if it does not end in a brace. -/
theorem clear_of_getLast (h : Text.cut? Delimiters.standard.opening s = none)
    (hlast : s.getLast? ≠ some '\x7b') : Clear .standard s := by
  refine cut?_braces ?_ []
  rw [Text.cut?_eq_none_iff] at h ⊢
  rw [List.infix_concat_iff, not_or]
  refine ⟨?_, h⟩
  rintro ⟨u, hu⟩
  change u ++ ['\x7b', '\x7b'] = _ at hu
  have hs : u ++ ['\x7b'] = s := by
    refine @List.append_cancel_right _ _ ['\x7b'] _ ?_
    simpa using hu
  exact hlast (by simp [← hs])

/-- Behind a brace an action begins a brace too early, and its statement is read with a brace in
front. -/
theorem scan_brace (hstatement : Spoken .standard statement)
    (h : Text.cut? Delimiters.standard.opening (s ++ ['\x7b']) = none) (trimmed : Bool) (line : Nat)
    (rest : List Char) :
    ∃ before line', scan .standard trimmed line
        (s ++ ['\x7b'] ++ (source .standard (.action statement 0) ++ rest)) =
      (scan .standard false line' rest).map fun more =>
        before ++ .action ('\x7b' :: ' ' :: statement) (line + lineFeeds s) :: more := by
  have hsource : s ++ ['\x7b'] ++ (source .standard (.action statement 0) ++ rest) =
      s ++ '\x7b' :: '\x7b' ::
        ('\x7b' :: ' ' :: (statement ++ ' ' :: (Delimiters.standard.closing ++ rest))) := by
    simp [source, Delimiters.opening, Delimiters.standard]
  have hclosing : Text.cut? Delimiters.standard.closing
      ('\x7b' :: ' ' :: (statement ++ ' ' :: (Delimiters.standard.closing ++ rest))) =
        some ('\x7b' :: ' ' :: (statement ++ [' ']), rest) := by
    rw [Text.cut?, cut?_closing isWord_closing hstatement.closing rest]
    rfl
  have hmarks : trimMarks ('\x7b' :: ' ' :: (statement ++ [' '])) =
      ('\x7b' :: ' ' :: (statement ++ [' ']), false, false) := by
    simp [trimMarks, hasTrimMark]
  have htight : Text.Tight ('\x7b' :: ' ' :: statement) :=
    .append (s := ['\x7b', ' ']) ⟨_, _, rfl, rfl⟩ hstatement.tight
  have htrim : Text.trim ('\x7b' :: ' ' :: (statement ++ [' '])) = '\x7b' :: ' ' :: statement :=
    htight.trim_padded (v := []) (w := [' ']) rfl rfl
  have hcomment : opensComment ('\x7b' :: ' ' :: statement) = false := rfl
  refine ⟨ofText (textBefore trimmed false s), line + lineFeeds s + lineFeeds
    (Delimiters.standard.opening ++ '\x7b' :: ' ' :: (statement ++ [' ']) ++
      Delimiters.standard.closing), ?_⟩
  rw [hsource, scan_next (cut?_braces h _) hclosing hmarks, htrim, hcomment]
  rfl

/-- A statement begins with a brace. -/
def HasBrace (segments : List Segment) : Prop := ∃ t line, .action ('\x7b' :: t) line ∈ segments

/-- **Where an action stands behind a brace, a statement is read that begins with a brace.** -/
theorem scan_braced (hstatement : Spoken .standard statement) (hs : Whole .standard trimmed line s)
    (hlast : s.getLast? = some '\x7b') (rest : List Char) :
    Ends HasBrace (fun _ => True)
      (scan .standard trimmed line (s ++ (source .standard (.action statement 0) ++ rest))) := by
  rcases exists_lastText hs with ⟨f, hf⟩ | ⟨done, trimmed', line', text, htext, hnone, -, hscan⟩
  · rw [hf]
    trivial
  · have hend : text.getLast? = some '\x7b' := by
      rcases htext with rfl | ⟨before, hs⟩
      · exact hlast
      · cases text with
        | nil => simp [← hs, Delimiters.closing, Delimiters.standard] at hlast
        | cons c text => simpa [← hs] using hlast
    obtain ⟨u, rfl⟩ := List.getLast?_eq_some_iff.1 hend
    obtain ⟨before, next, hbrace⟩ := scan_brace hstatement hnone trimmed' line' rest
    rw [hscan, hbrace]
    cases scan .standard false next rest with
    | error f => trivial
    | ok more => exact ⟨' ' :: statement, line' + lineFeeds u, by simp⟩

end Braces

end Segment

/-- A statement that begins with a brace cannot be read. -/
theorem ends_braced (statement : List Char) (line : Nat) (frames : List Frame) (done : List Definition) :
    Build.Ends (fun _ => False) (fun _ => True)
      (step frames done (.action ('\x7b' :: statement) line)) := by
  have hkeyword : Keyword.of ('\x7b' :: statement) = .action := by
    have hwords : ∀ word ∈ ["end", "else", "if", "range", "with", "define"],
        word.toList.head? ≠ some '\x7b' := by decide
    exact keyword_action fun word hword heq => hwords word hword (by rw [← heq]; rfl)
  have hcall : parseTemplateCall ('\x7b' :: statement) = .error (.unexpectedChar '\x7b') := by
    unfold parseTemplateCall
    rw [Lexeme.next_cons rfl]
    rfl
  simp only [step, hkeyword]
  have haction : Build.Ends (fun _ => False) (fun _ => True)
      (Build.action ('\x7b' :: statement) line) := by
    refine .getState fun b => ?_
    unfold Build.actionNode
    rw [hcall]
    exact .throw trivial
  exact haction.bind fun _ h => h.elim

/-- Segments with such a statement cannot be compiled. -/
theorem compile_braced {segments : List Segment} (h : Segment.HasBrace segments) :
    ∀ (frames : List Frame) (done : List Definition),
      Build.Ends (fun _ => False) (fun _ => True) (compile frames done segments) := by
  obtain ⟨statement, line, h⟩ := h
  induction segments with
  | nil => cases h
  | cons segment segments ih =>
    intro frames done
    rw [compile_cons]
    rcases List.mem_cons.1 h with rfl | hmem
    · exact (ends_braced statement line frames done).bind fun _ h => h.elim
    · exact .seq (.any _) fun r => ih hmem r.1 r.2

/-! ## Bodies -/

/-- The source can stand between two actions: no action goes on behind it, and it leaves no block open
and touches no other. A comment that is not closed is a fault wherever it stands. -/
def IsBody (source : List Char) : Prop := ∀ line,
  match Segment.scan .standard false line source with
  | .ok segments => openAfter 0 segments = some 0
  | .error f => f.cause = .unclosedComment

theorem IsBody.whole {source : List Char} (h : IsBody source) (line : Nat) :
    Segment.Whole .standard false line source := by
  intro f hf hcause
  have hbody := h line
  rw [hf] at hbody
  cases hcause.symm.trans hbody

theorem IsBody.openAfter_eq {source : List Char} {line : Nat} {segments : List Segment}
    (h : IsBody source) (hs : Segment.scan .standard false line source = .ok segments) :
    openAfter 0 segments = some 0 := by
  have hbody := h line
  rwa [hs] at hbody

theorem isBody_nil : IsBody [] := by
  intro line
  rw [Segment.scan_last rfl]
  rfl

end Stencil.Delimited
