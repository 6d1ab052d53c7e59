import Stencil.Template.Basic

/-!
# Contexts in document order

Nodes read from first to last as they stand in the source: a branch with its body and the other part
behind it, whichever of them is run.

* `Node.contextAfter` and `Node.contextAfterAll` are the contexts that nodes lead to.
* `Node.RecordedAll` says that all actions hold the context at which they stand.
* `Node.SettledAll` says that the body and the other part of every branch lead back to where they
  start.
-/

namespace Stencil.Node

mutual

/-- The context after a node in document order. -/
def contextAfter (c : HtmlContext) : Node → HtmlContext
  | .text s => c.feed s.toList
  | .action .. => c
  | .cond _ _ _ body otherwise => contextAfterAll (contextAfterAll c body) otherwise
  | .range _ _ body otherwise => contextAfterAll (contextAfterAll c body) otherwise
  | .scope _ _ body otherwise => contextAfterAll (contextAfterAll c body) otherwise
  | .template .. => c

/-- The context after some nodes in document order. -/
def contextAfterAll (c : HtmlContext) : List Node → HtmlContext
  | [] => c
  | n :: ns => contextAfterAll (contextAfter c n) ns

end

mutual

/-- The actions of a node hold the context at which they stand in document order. -/
def Recorded (c : HtmlContext) : Node → Prop
  | .text _ => True
  | .action _ context _ => context = c
  | .cond _ _ _ body otherwise => RecordedAll c body ∧ RecordedAll (contextAfterAll c body) otherwise
  | .range _ _ body otherwise => RecordedAll c body ∧ RecordedAll (contextAfterAll c body) otherwise
  | .scope _ _ body otherwise => RecordedAll c body ∧ RecordedAll (contextAfterAll c body) otherwise
  | .template .. => True

/-- The actions of some nodes hold the context at which they stand in document order. -/
def RecordedAll (c : HtmlContext) : List Node → Prop
  | [] => True
  | n :: ns => Recorded c n ∧ RecordedAll (contextAfter c n) ns

end

/-- The nodes lead back to the context in which they start. -/
def Returns (c : HtmlContext) (ns : List Node) : Prop := contextAfterAll c ns = c

mutual

/-- The parts of all branches in a node lead back to the context in which they start. -/
def Settled (c : HtmlContext) : Node → Prop
  | .text _ => True
  | .action .. => True
  | .cond _ _ _ body otherwise =>
    (Returns c body ∧ SettledAll c body) ∧
      Returns (contextAfterAll c body) otherwise ∧ SettledAll (contextAfterAll c body) otherwise
  | .range _ _ body otherwise =>
    (Returns c body ∧ SettledAll c body) ∧
      Returns (contextAfterAll c body) otherwise ∧ SettledAll (contextAfterAll c body) otherwise
  | .scope _ _ body otherwise =>
    (Returns c body ∧ SettledAll c body) ∧
      Returns (contextAfterAll c body) otherwise ∧ SettledAll (contextAfterAll c body) otherwise
  | .template .. => True

/-- The parts of all branches in some nodes lead back to the context in which they start. -/
def SettledAll (c : HtmlContext) : List Node → Prop
  | [] => True
  | n :: ns => Settled c n ∧ SettledAll (contextAfter c n) ns

end

theorem contextAfterAll_append (c : HtmlContext) (ns ms : List Node) :
    contextAfterAll c (ns ++ ms) = contextAfterAll (contextAfterAll c ns) ms := by
  induction ns generalizing c with
  | nil => rfl
  | cons n ns ih => exact ih (contextAfter c n)

theorem recordedAll_append {c : HtmlContext} {ns ms : List Node} :
    RecordedAll c (ns ++ ms) ↔ RecordedAll c ns ∧ RecordedAll (contextAfterAll c ns) ms := by
  induction ns generalizing c with
  | nil => simp [RecordedAll, contextAfterAll]
  | cons n ns ih => simp only [List.cons_append, RecordedAll, contextAfterAll, ih, and_assoc]

end Stencil.Node
