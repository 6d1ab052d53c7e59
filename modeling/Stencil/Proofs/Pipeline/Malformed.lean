import Stencil.Template.Builder

/-!
# Statements that cannot be read

Whatever is wrong with a statement, a token or how the tokens are put together, is an error of syntax.

* `Outcome.Malformed` says that a computation stops with such errors only.
* `malformed_parsePipeline` and `malformed_parseTemplateCall` say so for statements, and
  `Build.kind_of_actionNode` concludes for the node of a statement.
-/

namespace Stencil

variable {α β : Type}

/-! ## Errors of syntax -/

/-- The computation stops with errors of syntax only. -/
def Outcome.Malformed (o : Outcome α) : Prop := ∀ c, o = .error c → c.kind = .badSyntax

namespace Outcome.Malformed

theorem pure (a : α) : Malformed (Pure.pure a : Outcome α) := nofun

theorem throw {c : Cause} (h : c.kind = .badSyntax) :
    Malformed (MonadExcept.throw c : Outcome α) := fun _ hc => by
  cases hc
  exact h

theorem bind {o : Outcome α} {k : α → Outcome β} (h : Malformed o) (hk : ∀ a, Malformed (k a)) :
    Malformed (o >>= k) := by
  cases o with
  | ok a => exact hk a
  | error c =>
    intro _ hc
    cases hc
    exact h c rfl

theorem ite {p : Prop} [Decidable p] {o o' : Outcome α} (h : Malformed o) (h' : Malformed o') :
    Malformed (if p then o else o') := by
  split
  · exact h
  · exact h'

theorem dite {p : Prop} [Decidable p] {o : p → Outcome α} {o' : ¬ p → Outcome α}
    (h : ∀ hp, Malformed (o hp)) (h' : ∀ hp, Malformed (o' hp)) :
    Malformed (if hp : p then o hp else o' hp) := by
  split
  · exact h _
  · exact h' _

end Outcome.Malformed

open Outcome (Malformed)

/-! ## Tokens -/

theorem Numeral.malformed_token (n : Numeral) : Malformed n.token := by
  unfold Numeral.token
  dsimp only
  split
  · exact .throw rfl
  split
  · split
    · exact .pure _
    · exact .throw rfl
  split
  · split
    · exact .pure _
    · exact .throw rfl
  · exact .throw rfl

theorem malformed_stringToken (body : List Char) : Malformed (stringToken body) := by
  unfold stringToken unescape
  split
  · refine .bind ?_ fun _ => .pure _
    split
    · exact .pure _
    · exact .throw rfl
  · exact .pure _

namespace Lexed

variable {c : Char} {s : List Char}

theorem malformed_unsigned (h : Numeral.starts (c :: s) = true) : Malformed (unsigned c s h) :=
  .bind (Numeral.malformed_token _) fun _ => .pure _

theorem malformed_signed (c : Char) (s : List Char) : Malformed (signed c s) :=
  .bind (Numeral.malformed_token _) fun _ => .pure _

theorem malformed_quoted (s : List Char) : Malformed (quoted s) := by
  unfold quoted
  split
  · exact .bind (malformed_stringToken _) fun _ => .pure _
  · exact .throw rfl

theorem malformed_raw (c : Char) (s : List Char) : Malformed (raw c s) := by
  unfold raw
  split
  · exact .pure _
  · exact .throw rfl

theorem malformed_colon (c : Char) (s : List Char) : Malformed (colon c s) := by
  unfold colon
  split
  · exact .pure _
  · exact .throw rfl

theorem malformed_read (c : Char) (s : List Char) : Malformed (read c s) := by
  have hquoted : ∀ h : c = '"', Malformed (h ▸ quoted s : Outcome (Lexed (c :: s))) := by
    rintro rfl
    exact malformed_quoted s
  unfold read
  refine .ite (.pure _) (.ite (.pure _) (.ite (.pure _) (.ite (.pure _) ?_)))
  refine .ite (malformed_colon c s) (.ite (.pure _) (.dite (fun _ => ?_) fun _ => ?_))
  · exact .ite (malformed_unsigned _) (.pure _)
  refine .ite (.pure _) (.dite hquoted fun _ => .ite (malformed_raw c s) ?_)
  refine .dite (fun _ => malformed_unsigned _) fun _ => .ite (malformed_signed c s) ?_
  exact .dite (fun _ => .pure _) fun _ => .throw rfl

end Lexed

namespace Lexeme

theorem malformed_next (offset : UInt32) (s : List Char) : Malformed (next offset s) := by
  unfold next
  split
  · exact .pure _
  · exact .bind (Lexed.malformed_read _ _) fun _ => .pure _

theorem kind_of_scan {offset : UInt32} {s : List Char} {c : Cause} (h : (scan offset s).2 = some c) :
    c.kind = .badSyntax := by
  fun_induction scan offset s with
  | case1 offset s e hnext =>
    cases h
    exact malformed_next offset s _ hnext
  | case2 => cases h
  | case3 offset s l rest hnext hlength ls e heq ih =>
    rw [heq] at ih
    exact ih h

end Lexeme

theorem malformed_tokenize (s : List Char) : Malformed (tokenize s) := by
  unfold tokenize
  split
  · exact .pure _
  · next heq => exact .throw (Lexeme.kind_of_scan (congrArg Prod.snd heq))

/-! ## Pipelines -/

namespace Draft

theorem malformed_endCommand (d : Draft) : Malformed d.endCommand := by
  unfold endCommand
  split
  · exact .throw rfl
  · exact .throw rfl
  · exact .pure _

theorem malformed_pushField (d : Draft) (name : String) (glued : Bool) :
    Malformed (d.pushField name glued) := by
  unfold pushField
  split
  · exact .throw rfl
  · exact .throw rfl
  all_goals exact .pure _

theorem malformed_read (ts : List Glued) : ∀ (outer : List Draft) (d : Draft) (skip : Nat),
    Malformed (read outer d skip ts) := by
  induction ts with
  | nil =>
    intro outer d skip
    refine .bind (malformed_endCommand d) fun d => ?_
    split
    · exact .pure _
    · exact .throw rfl
  | cons t ts ih =>
    intro outer d skip
    obtain ⟨token, glued⟩ := t
    cases skip with
    | succ n => exact ih outer d n
    | zero =>
      cases token with
      | pipe => exact .bind (malformed_endCommand d) fun d => ih outer d 0
      | closeParen =>
        refine .bind (malformed_endCommand d) fun d => ?_
        cases outer with
        | nil => exact .throw rfl
        | cons o outer => exact ih outer _ 0
      | openParen =>
        rw [read]
        dsimp only
        split
        · exact .throw rfl
        · exact ih _ _ _
      | field name => exact .bind (malformed_pushField d name glued) fun d => ih outer d 0
      | declare => exact .throw rfl
      | assign => exact .throw rfl
      | comma => exact .throw rfl
      | _ => exact ih outer _ 0

end Draft

theorem malformed_parsePipeline (s : List Char) : Malformed (parsePipeline s) := by
  refine .bind (malformed_tokenize s) fun ls => ?_
  dsimp only
  split
  · exact .throw rfl
  · exact Draft.malformed_read _ _ _ _

theorem malformed_parseTemplateCall (s : List Char) : Malformed (parseTemplateCall s) := by
  have hbehind : ∀ (name : String) (s : List Char), Malformed (if Text.isBlank s = true then
      (pure (some { name, pipeline := none }) : Outcome (Option TemplateCall))
      else parsePipeline s >>= fun p => pure (some { name, pipeline := some p })) :=
    fun name s => .ite (.pure _) (.bind (malformed_parsePipeline s) fun _ => .pure _)
  refine .bind (Lexeme.malformed_next 0 s) fun o => ?_
  split
  · refine .bind (Lexeme.malformed_next 0 _) fun o => ?_
    split
    · exact hbehind _ _
    · exact hbehind _ _
    · exact .bind (.throw rfl) fun _ => hbehind _ _
    · exact .bind (.throw rfl) fun _ => hbehind _ _
  · exact .pure _

/-- **A statement that has no node is an error of syntax.** -/
theorem Build.kind_of_actionNode {context : HtmlContext} {statement : List Char} {line : Nat}
    {c : Cause} (h : actionNode context statement line = .error c) : c.kind = .badSyntax := by
  have hmalformed : Malformed (actionNode context statement line) := by
    refine .bind (malformed_parseTemplateCall statement) fun call => ?_
    split
    · exact .pure _
    · exact .bind (malformed_parsePipeline statement) fun _ => .pure _
  exact hmalformed c h

end Stencil
