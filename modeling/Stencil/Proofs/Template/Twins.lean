import Stencil.Proofs.Template.Building
import Stencil.Proofs.Template.Faults

/-!
# Computations that come to the same

Two sources that are written in different ways mean the same, but not on the same lines, and what is
wrong with them is not told in the same words. They are compared step by step: either both computations
fail, or both give values that are related.

* `Twins R` says so of two results, and `Build.Twins S R` of two computations that write to a builder,
  from builders that are related by `S` and to such builders.
* `Build.Twins.pipeline`, `Build.Twins.action`, `Build.Twins.interpolated` and `Build.Twins.nested` say
  that the line makes no difference to what is written but the line.
* `SameTemplates` compares what sources are compiled to.
-/

namespace Stencil

variable {α α' β β' : Type}

/-- Both results are faults, or they are values that are related. -/
inductive Twins (R : α → α' → Prop) : Except Fault α → Except Fault α' → Prop
  | ok {a : α} {a' : α'} (h : R a a') : Twins R (.ok a) (.ok a')
  | error {f f' : Fault} : Twins R (.error f) (.error f')

namespace Twins

variable {R : α → α' → Prop} {R' : β → β' → Prop} {e : Except Fault α} {e' : Except Fault α'}

theorem bind {k : α → Except Fault β} {k' : α' → Except Fault β'} (h : Twins R e e')
    (hk : ∀ a a', R a a' → Twins R' (k a) (k' a')) : Twins R' (e >>= k) (e' >>= k') := by
  cases h with
  | ok h => exact hk _ _ h
  | error => exact .error

theorem mono {Q : α → α' → Prop} (h : Twins R e e') (hR : ∀ a a', R a a' → Q a a') :
    Twins Q e e' := by
  cases h with
  | ok h => exact .ok (hR _ _ h)
  | error => exact .error

theorem symm (h : Twins R e e') : Twins (fun a' a => R a a') e' e := by
  cases h with
  | ok h => exact .ok h
  | error => exact .error

theorem trans {γ : Type} {g : Except Fault γ} {Q : α' → γ → Prop} {P : α → γ → Prop} (h : Twins R e e')
    (h' : Twins Q e' g) (hP : ∀ a a' c, R a a' → Q a' c → P a c) : Twins P e g := by
  cases h with
  | ok h =>
    cases h' with
    | ok h' => exact .ok (hP _ _ _ h h')
  | error =>
    cases h' with
    | error => exact .error

end Twins

namespace Build

/-- Both results are faults, or they are values and builders that are related. -/
inductive SameEnd (S : Builder → Builder → Prop) (R : α → α' → Prop) :
    EStateM.Result Fault Builder α → EStateM.Result Fault Builder α' → Prop
  | ok {a : α} {a' : α'} {b b' : Builder} (h : R a a') (hb : S b b') : SameEnd S R (.ok a b) (.ok a' b')
  | error {f f' : Fault} {b b' : Builder} : SameEnd S R (.error f b) (.error f' b')

/-- From builders that are related both computations fail, or both give values and builders that are
related. -/
def Twins (S : Builder → Builder → Prop) (R : α → α' → Prop) (act : Build α) (act' : Build α') : Prop :=
  ∀ b b', S b b' → SameEnd S R (act b) (act' b')

namespace Twins

variable {S : Builder → Builder → Prop} {R : α → α' → Prop} {R' : β → β' → Prop} {act : Build α}
  {act' : Build α'}

theorem refl (act : Build α) : Twins Eq Eq act act := by
  rintro b _ ⟨⟩
  cases act b with
  | ok a b' => exact .ok rfl rfl
  | error f b' => exact .error

theorem pure {a : α} {a' : α'} (h : R a a') :
    Twins S R (Pure.pure a : Build α) (Pure.pure a' : Build α') := fun _ _ hb => .ok h hb

theorem throw (f f' : Fault) :
    Twins S R (MonadExcept.throw f : Build α) (MonadExcept.throw f' : Build α') := fun _ _ _ => .error

/-- Two computations that cannot come to a value. -/
theorem ofEnds {Q Q' : Fault → Prop} (h : Ends (fun _ => False) Q act)
    (h' : Ends (fun _ => False) Q' act') : Twins S R act act' := by
  intro b b' _
  have hact := h b
  have hact' := h' b'
  generalize act b = r at hact ⊢
  generalize act' b' = r' at hact' ⊢
  cases r with
  | ok a c => exact hact.elim
  | error f c =>
    cases r' with
    | ok a c => exact hact'.elim
    | error f c => exact .error

theorem bind {k : α → Build β} {k' : α' → Build β'} (h : Twins S R act act')
    (hk : ∀ a a', R a a' → Twins S R' (k a) (k' a')) : Twins S R' (act >>= k) (act' >>= k') := by
  intro b b' hb
  have hact := h b b' hb
  change SameEnd S R' (EStateM.bind act k b) (EStateM.bind act' k' b')
  unfold EStateM.bind
  generalize act b = r at hact ⊢
  generalize act' b' = r' at hact ⊢
  cases hact with
  | ok h hb => exact hk _ _ h _ _ hb
  | error => exact .error

theorem seq {k : α → Build β} {k' : α' → Build β'} (h : Twins S R act act')
    (hk : ∀ a a', Twins S R' (k a) (k' a')) : Twins S R' (act >>= k) (act' >>= k') :=
  h.bind fun a a' _ => hk a a'

theorem getState {k : Builder → Build β} {k' : Builder → Build β'}
    (hk : ∀ b b', S b b' → Twins S R' (k b) (k' b')) :
    Twins S R' ((get : Build Builder) >>= k) ((get : Build Builder) >>= k') :=
  fun b b' hb => hk b b' hb b b' hb

theorem modifyState {f f' : Builder → Builder} (h : ∀ b b', S b b' → S (f b) (f' b')) :
    Twins S Eq (modify f : Build PUnit) (modify f') := fun b b' hb => .ok rfl (h b b' hb)

end Twins

/-! ## Lines -/

end Build

namespace Builder.Alike

variable {b c d : Builder}

theorem symm (h : b.Alike c) : c.Alike b := ⟨h.context.symm, h.emitted.symm⟩

theorem trans (h : b.Alike c) (h' : c.Alike d) : b.Alike d :=
  ⟨h.context.trans h'.context, h.emitted.trans h'.emitted⟩

end Builder.Alike

namespace Build

namespace Twins

theorem symm {act act' : Build α} (h : Twins Builder.Alike Eq act act') :
    Twins Builder.Alike Eq act' act := by
  intro b b' hb
  have hact := h b' b hb.symm
  generalize act b' = r at hact ⊢
  generalize act' b = r' at hact ⊢
  cases hact with
  | ok h hb => exact .ok h.symm hb.symm
  | error => exact .error

theorem trans {act act' act'' : Build α} (h : Twins Builder.Alike Eq act act')
    (h' : Twins Builder.Alike Eq act' act'') : Twins Builder.Alike Eq act act'' := by
  intro b b' hb
  have hact := h b b (.refl b)
  have hact' := h' b b' hb
  generalize act b = r at hact ⊢
  generalize act' b = r' at hact hact'
  generalize act'' b' = r'' at hact' ⊢
  cases hact with
  | ok h hb =>
    cases hact' with
    | ok h' hb' => exact .ok (h.trans h') (hb.trans hb')
  | error =>
    cases hact' with
    | error => exact .error

open Node (unplaced unplacedAll)

variable {s : Settings} {line line' : Nat} {statement : List Char}

theorem text (t : String) : Twins Builder.Alike Eq (Build.text t) (Build.text t) :=
  .modifyState fun _ _ h => h.text t

theorem space (pad : Bool) : Twins Builder.Alike Eq (Build.space pad) (Build.space pad) := by
  cases pad with
  | true => exact text " "
  | false => exact .pure rfl

/-- Statements are read alike on all lines. -/
theorem pipeline (statement : List Char) (line line' : Nat) :
    Twins Builder.Alike Eq (Build.pipeline statement line) (Build.pipeline statement line') := by
  unfold Build.pipeline
  cases parsePipeline statement with
  | ok p => exact .pure rfl
  | error c => exact .throw _ _

/-- Whether a statement has a node does not depend on the line. -/
theorem twins_actionNode (context : HtmlContext) (statement : List Char) (line line' : Nat) :
    (∃ c, actionNode context statement line = .error c ∧ actionNode context statement line' = .error c) ∨
      ∃ m n, actionNode context statement line = .ok m ∧ actionNode context statement line' = .ok n ∧
        unplaced id m = unplaced id n := by
  unfold actionNode
  cases parseTemplateCall statement with
  | error c => exact .inl ⟨c, rfl, rfl⟩
  | ok call =>
    cases call with
    | some call => exact .inr ⟨_, _, rfl, rfl, rfl⟩
    | none =>
      cases parsePipeline statement with
      | error c => exact .inl ⟨c, rfl, rfl⟩
      | ok p => exact .inr ⟨_, _, rfl, rfl, rfl⟩

theorem action (statement : List Char) (line line' : Nat) :
    Twins Builder.Alike Eq (Build.action statement line) (Build.action statement line') := by
  refine .getState fun b b' hb => ?_
  rw [hb.context]
  rcases twins_actionNode b'.context statement line line' with ⟨c, h, h'⟩ | ⟨m, n, h, h', hmn⟩
  · rw [h, h']
    exact .throw _ _
  · rw [h, h']
    exact .modifyState fun _ _ h => h.push hmn

theorem interpolation (s : Settings) (pad : Bool) (statement : List Char) (line line' : Nat) :
    Twins Builder.Alike Eq (Build.interpolation s pad line statement)
      (Build.interpolation s pad line' statement) := by
  refine .getState fun b b' hb => ?_
  rw [hb.context]
  rcases twins_actionNode b'.context statement line line' with ⟨c, h, h'⟩ | ⟨m, n, h, h', hmn⟩
  · rw [h, h']
    dsimp only
    split
    · exact .throw _ _
    · exact .seq (.modifyState fun _ _ h => ⟨h.context, h.emitted⟩) fun _ _ =>
        .seq (.text _) fun _ _ => .space _
  · rw [h, h']
    exact .modifyState fun _ _ h => h.push hmn

theorem interpolations (s : Settings) (pad : Bool) (parts : List (List Char × List Char))
    (line line' : Nat) : Twins Builder.Alike Eq (Build.interpolations s pad line parts)
      (Build.interpolations s pad line' parts) := by
  induction parts with
  | nil => exact .pure rfl
  | cons part parts ih =>
    exact .seq (.text _) fun _ _ => .seq (.interpolation s pad _ _ _) fun _ _ => ih

/-- Interpolations are read alike on all lines. -/
theorem interpolated (s : Settings) (source : List Char) (pad : Bool) (line line' : Nat) :
    Twins Builder.Alike Eq (Build.interpolated s source pad line)
      (Build.interpolated s source pad line') := by
  refine .seq (.interpolations s pad _ _ _) fun _ _ => ?_
  split
  · exact .pure rfl
  · exact .seq (.text _) fun _ _ => .space _

theorem nested {act act' : Build PUnit} (h : Twins Builder.Alike Eq act act') :
    Twins Builder.Alike (fun ns ms => unplacedAll id ns = unplacedAll id ms) (Build.nested act)
      (Build.nested act') := by
  refine .getState fun b b' hb => .seq (.modifyState fun _ _ h => h.inner) fun _ _ => ?_
  refine .seq h fun _ _ => .getState fun c c' hc => ?_
  exact .seq (.modifyState fun _ _ h => ⟨h.context, hb.emitted⟩) fun _ _ => .pure hc.nodes

end Twins

end Build

/-! ## Templates -/

/-- The template without the lines of its nodes. -/
def Template.unplaced (t : Template) : Template := { t with nodes := Node.unplacedAll id t.nodes }

/-- Two sources have the same templates up to the lines of their nodes, or both have none. -/
def SameTemplates : Except Fault (Table Template) → Except Fault (Table Template) → Prop :=
  Twins fun ts us => ts.map (fun e => (e.1, e.2.unplaced)) = us.map fun e => (e.1, e.2.unplaced)

end Stencil
