import Stencil.Outline.Template

/-!
# What an outline is written with

All nodes of an outline are written with the same few computations. What is true of these, and stays
true when they are put together, is true of the whole outline; it is said of two computations at a time,
so that what two settings do can be compared.

* `Emits s s' R Inner` says that the relation `R` holds between what is written with the settings `s` and
  with `s'`, and that the nodes of every body have `Inner`.
* `Emits.emitAll` concludes for the nodes of an outline, and `Emits.compile` for a source.
-/

namespace Stencil

/-! ## Branches -/

/-- The node is a branch whose bodies have a property. -/
def Node.HasBodies (Inner : List Node → Prop) : Node → Prop
  | .cond _ _ _ body otherwise => Inner body ∧ Inner otherwise
  | .range _ _ body otherwise => Inner body ∧ Inner otherwise
  | .scope _ _ body otherwise => Inner body ∧ Inner otherwise
  | _ => False

/-! ## The strictness of interpolation -/

namespace Outline

variable {s : Settings} {strict : Bool}

mutual

theorem Tree.contents_strict : ∀ n : Nest,
    contents { s with strictInterpolation := strict } n = contents s n
  | .mk _ nested => by rw [contents, contents, ofNests_strict nested]

theorem Tree.ofNests_strict : ∀ ns : List Nest,
    ofNests { s with strictInterpolation := strict } ns = ofNests s ns
  | [] => rfl
  | n :: ns => by
    have hline : ∀ l below, lineTree { s with strictInterpolation := strict } l below =
        lineTree s l below := fun _ _ => rfl
    simp only [ofNests, hline, contents_strict n, ofNests_strict ns, otherwise?_strict ns]

theorem Tree.otherwise?_strict : ∀ (ns : List Nest) (k : Keyword) (level : Nat),
    otherwise? { s with strictInterpolation := strict } k level ns = otherwise? s k level ns
  | [], _, _ => rfl
  | n :: ns, k, level => by
    simp only [otherwise?, contents_strict n, ofNests_strict ns, otherwise?_strict ns]

end

/-- Interpolations are not looked at before an outline is written. -/
theorem analyze_strict (ls : List Line) :
    analyze { s with strictInterpolation := strict } ls = analyze s ls := Tree.ofNests_strict _

end Outline

/-! ## Relations of computations -/

/-- A relation of two computations is kept by everything that outlines are written with, if the bodies of
branches have `Inner`. -/
structure Emits (s s' : Settings) (R : {α : Type} → Build α → Build α → Prop)
    (Inner : List Node → Prop) : Prop where
  settings : s' = { s with strictInterpolation := s'.strictInterpolation }
  pure : ∀ {α : Type} (a : α), R (pure a) (pure a)
  throw : ∀ {α : Type} (f : Fault), R (throw f : Build α) (throw f)
  bind : ∀ {α β : Type} {act act' : Build α} {k k' : α → Build β}, R act act' →
    (∀ a, R (k a) (k' a)) → R (act >>= k) (act' >>= k')
  text : ∀ t, R (Build.text t) (Build.text t)
  action : ∀ statement line, R (Build.action statement line) (Build.action statement line)
  interpolation : ∀ pad line statement, R (Build.interpolation s pad line statement)
    (Build.interpolation s' pad line statement)
  empty : Inner []
  nested : ∀ {act act' : Build PUnit} {k k' : List Node → Build PUnit}, R act act' →
    (∀ ns, Inner ns → R (k ns) (k' ns)) → R (Build.nested act >>= k) (Build.nested act' >>= k')
  branch : ∀ n : Node, n.HasBodies Inner → R (modify (·.push n)) (modify (·.push n))

namespace Emits

open Outline (Tag Tree)

variable {s s' : Settings} {R : {α : Type} → Build α → Build α → Prop}
  {Inner : List Node → Prop} {α : Type}

theorem delimiters (h : Emits s s' R Inner) : s'.delimiters = s.delimiters := by
  rw [h.settings]

theorem idSeparator (h : Emits s s' R Inner) : s'.idSeparator = s.idSeparator := by
  rw [h.settings]

theorem space (h : Emits s s' R Inner) (pad : Bool) :
    R (Build.space pad) (Build.space pad) := by
  cases pad with
  | true => exact h.text " "
  | false => exact h.pure _

theorem pipeline (h : Emits s s' R Inner) (statement : List Char) (line : Nat) :
    R (Build.pipeline statement line) (Build.pipeline statement line) := by
  unfold Build.pipeline
  split
  · exact h.pure _
  · exact h.throw _

theorem atLine (h : Emits s s' R Inner) (line : Nat) (o : Outcome α) :
    R (Outline.atLine line o) (Outline.atLine line o) := by
  cases o with
  | ok a => exact h.pure _
  | error c => exact h.throw _

theorem ofExcept (h : Emits s s' R Inner) (e : Except Fault α) :
    R (Outline.ofExcept e) (Outline.ofExcept e) := by
  cases e with
  | ok a => exact h.pure _
  | error f => exact h.throw f

/-! ## Texts and tags -/

theorem interpolations (h : Emits s s' R Inner) (pad : Bool) (line : Nat)
    (parts : List (List Char × List Char)) : R (Build.interpolations s pad line parts)
      (Build.interpolations s' pad line parts) := by
  induction parts with
  | nil => exact h.pure _
  | cons part parts ih =>
    exact h.bind (h.text _) fun _ => h.bind (h.interpolation pad line _) fun _ => ih

theorem interpolated (h : Emits s s' R Inner) (source : List Char) (pad : Bool) (line : Nat) :
    R (Build.interpolated s source pad line)
      (Build.interpolated s' source pad line) := by
  unfold Build.interpolated
  rw [h.delimiters]
  refine h.bind (h.interpolations pad line _) fun _ => ?_
  split
  · exact h.pure _
  · exact h.bind (h.text _) fun _ => h.space pad

theorem emitOpening (h : Emits s s' R Inner) (t : Tag) (pad : Bool) (line : Nat) :
    R (Outline.emitOpening s t pad line) (Outline.emitOpening s' t pad line) := by
  unfold Outline.emitOpening
  rw [h.idSeparator]
  split
  · exact h.interpolated _ pad line
  · exact h.bind (h.text _) fun _ => h.space pad

theorem emitTrailing (h : Emits s s' R Inner) (trailing : List Char) (line : Nat) :
    R (Outline.emitTrailing s trailing line) (Outline.emitTrailing s' trailing line) := by
  unfold Outline.emitTrailing
  split
  · exact h.action _ line
  · exact h.interpolated trailing true line

/-! ## Outlines -/

mutual

theorem emit (h : Emits s s' R Inner) : ∀ t : Tree, R (Tree.emit s t) (Tree.emit s' t)
  | .raw _ literal => by
    rw [Tree.emit, Tree.emit]
    exact h.text literal
  | .text place content => by
    rw [Tree.emit, Tree.emit]
    exact h.interpolated content true place.line
  | .statement place statement => by
    rw [Tree.emit, Tree.emit]
    exact h.action statement place.line
  | .leaf place content => by
    rw [Tree.emit, Tree.emit, h.delimiters]
    refine h.bind (h.atLine place.line _) fun (tag, trailing) => ?_
    dsimp only
    split
    · exact h.bind (h.emitOpening tag false place.line) fun _ => h.text _
    · exact h.bind (h.emitOpening tag true place.line) fun _ =>
        h.bind (h.emitTrailing trailing place.line) fun _ => h.interpolated tag.closing true place.line
  | .opening place content => by
    rw [Tree.emit, Tree.emit, h.delimiters]
    refine h.bind (h.atLine place.line _) fun (tag, trailing) => ?_
    refine h.bind (h.emitOpening tag false place.line) fun _ => ?_
    split
    · exact h.pure _
    · exact h.emitTrailing trailing place.line
  | .closing place content => by
    rw [Tree.emit, Tree.emit, h.delimiters]
    exact h.bind (h.atLine place.line _) fun _ => h.text _
  | .cond place negated subject body otherwise => by
    rw [Tree.emit, Tree.emit]
    exact h.bind (h.pipeline subject place.line) fun _ => h.nested (emitAll h body) fun _ hbody =>
      h.nested (emitAll h otherwise) fun _ hother => h.branch (.cond ..) ⟨hbody, hother⟩
  | .range place subject body otherwise => by
    rw [Tree.emit, Tree.emit]
    exact h.bind (h.pipeline subject place.line) fun _ => h.nested (emitAll h body) fun _ hbody =>
      h.nested (emitAll h otherwise) fun _ hother => h.branch (.range ..) ⟨hbody, hother⟩
  | .scope place subject body => by
    rw [Tree.emit, Tree.emit]
    exact h.bind (h.pipeline subject place.line) fun _ => h.nested (emitAll h body) fun _ hbody =>
      h.branch (.scope ..) ⟨hbody, h.empty⟩
  | .filter place handler body => by
    rw [Tree.emit, Tree.emit]
    exact h.interpolated _ false place.line

/-- **What is true of everything that outlines are written with** is true of their nodes. -/
theorem emitAll (h : Emits s s' R Inner) :
    ∀ ts : List Tree, R (Tree.emitAll s ts) (Tree.emitAll s' ts)
  | [] => by
    rw [Tree.emitAll, Tree.emitAll]
    exact h.pure _
  | t :: ts => by
    rw [Tree.emitAll, Tree.emitAll]
    exact h.bind (emit h t) fun _ => emitAll h ts

end

theorem compile (h : Emits s s' R Inner) (source : List Char) :
    R (Outline.compile s source) (Outline.compile s' source) := by
  unfold Outline.compile
  have hindent : s'.strictIndentation = s.strictIndentation := by rw [h.settings]
  have hanalyze : ∀ ls, Outline.analyze s' ls = Outline.analyze s ls := fun ls => by
    rw [h.settings, Outline.analyze_strict]
  simp only [hindent, hanalyze]
  exact h.bind (h.ofExcept _) fun ls => h.bind (h.ofExcept _) fun ts => h.emitAll ts

end Emits

end Stencil
