import Stencil.Delimited.Printer
import Stencil.Template.Builder

/-!
# What a program is compiled to

Every front end compiles a program to the same nodes; only the lines differ, which are those of its
source.

* `Node.unplaced f` is a node without lines, with its contexts changed by `f`.
* `Builds pad ps b b'` says what a compiler has to do with a program, on whatever lines its statements
  are: it takes the builder `b` to `b'`. The text `pad` stands behind every text.
* `Builds.alike` says that this leaves nothing open but the lines.
-/

namespace Stencil

/-! ## Nodes without lines -/

namespace Node

mutual

/-- The node without its lines, and with its contexts changed. -/
def unplaced (f : HtmlContext → HtmlContext) : Node → Node
  | .text s => .text s
  | .action _ context p => .action 0 (f context) p
  | .cond _ negated p body otherwise =>
    .cond 0 negated p (unplacedAll f body) (unplacedAll f otherwise)
  | .range _ p body otherwise => .range 0 p (unplacedAll f body) (unplacedAll f otherwise)
  | .scope _ p body otherwise => .scope 0 p (unplacedAll f body) (unplacedAll f otherwise)
  | .template _ name p => .template 0 name p

/-- The nodes without their lines, and with their contexts changed. -/
def unplacedAll (f : HtmlContext → HtmlContext) : List Node → List Node
  | [] => []
  | n :: ns => unplaced f n :: unplacedAll f ns

end

variable {f : HtmlContext → HtmlContext}

theorem unplacedAll_eq_map (ns : List Node) : unplacedAll f ns = ns.map (unplaced f) := by
  induction ns with
  | nil => rfl
  | cons n ns ih => rw [unplacedAll, ih, List.map_cons]

theorem unplacedAll_reverse (ns : List Node) :
    unplacedAll f ns.reverse = (unplacedAll f ns).reverse := by
  simp only [unplacedAll_eq_map, List.map_reverse]

theorem unplaced_node (branch : Delimited.Branch) (line : Nat) (p : Pipeline)
    (body otherwise : List Node) : unplaced f (branch.node line p body otherwise) =
      branch.node 0 p (unplacedAll f body) (unplacedAll f otherwise) := by
  cases branch <;> rfl

end Node

/-! ## Compiling a program -/

/-- The builder in which the body of a branch is written. -/
def Builder.inner (b : Builder) : Builder := { b with emitted := [] }

/-- The builder behind a branch: the node takes the place of what was written inside. -/
def Builder.outer (b inside : Builder) (n : Node) : Builder :=
  { inside with emitted := n :: b.emitted }

/-- Compiling a program takes one builder to another one. -/
inductive Builds (pad : List Char) : List Part → Builder → Builder → Prop
  | nil {b : Builder} : Builds pad [] b b
  | text {s : List Char} {ps : List Part} {b b' : Builder}
    (h : Builds pad ps (b.text (String.ofList (s ++ pad))) b') : Builds pad (.text s :: ps) b b'
  | action {statement : List Char} {ps : List Part} {b b' : Builder} {n : Node} {line : Nat}
    (hn : Build.actionNode b.context statement line = .ok n) (h : Builds pad ps (b.push n) b') :
    Builds pad (.action statement :: ps) b b'
  | branch {branch : Delimited.Branch} {subject : List Char} {body ps : List Part}
    {b inside b' : Builder} {p : Pipeline} {line : Nat} (hp : parsePipeline subject = .ok p)
    (hbody : Builds pad body b.inner inside)
    (h : Builds pad ps (b.outer inside (branch.node line p inside.nodes [])) b') :
    Builds pad (.branch branch subject body none :: ps) b b'
  | choice {branch : Delimited.Branch} {subject : List Char} {body otherwise ps : List Part}
    {b inside inside' b' : Builder} {p : Pipeline} {line : Nat} (hp : parsePipeline subject = .ok p)
    (hbody : Builds pad body b.inner inside) (hother : Builds pad otherwise inside.inner inside')
    (h : Builds pad ps (b.outer inside' (branch.node line p inside.nodes inside'.nodes)) b') :
    Builds pad (.branch branch subject body (some otherwise) :: ps) b b'

/-! ## Builders without lines -/

/-- The builders differ in lines only. -/
structure Builder.Alike (b c : Builder) : Prop where
  context : b.context = c.context
  emitted : Node.unplacedAll id b.emitted = Node.unplacedAll id c.emitted

namespace Builder.Alike

open Node

variable {b c : Builder}

theorem refl (b : Builder) : b.Alike b := ⟨rfl, rfl⟩

theorem nodes (h : b.Alike c) : unplacedAll id b.nodes = unplacedAll id c.nodes := by
  rw [Builder.nodes, Builder.nodes, unplacedAll_reverse, unplacedAll_reverse, h.emitted]

theorem push (h : b.Alike c) {m n : Node} (hn : unplaced id m = unplaced id n) :
    (b.push m).Alike (c.push n) :=
  ⟨h.context, List.cons_eq_cons.2 ⟨hn, h.emitted⟩⟩

theorem inner (h : b.Alike c) : b.inner.Alike c.inner := ⟨h.context, rfl⟩

theorem outer (h : b.Alike c) {inside inside' : Builder} (hinside : inside.Alike inside') {m n : Node}
    (hn : unplaced id m = unplaced id n) : (b.outer inside m).Alike (c.outer inside' n) :=
  ⟨hinside.context, List.cons_eq_cons.2 ⟨hn, h.emitted⟩⟩

/-- A text is the same node with or without lines, so text is merged alike. -/
theorem text (h : b.Alike c) (s : String) : (b.text s).Alike (c.text s) := by
  obtain ⟨context, emitted, events⟩ := b
  obtain ⟨context', emitted', events'⟩ := c
  obtain ⟨hcontext, hemitted⟩ := h
  obtain rfl : context = context' := hcontext
  unfold Builder.text
  split
  · exact ⟨rfl, hemitted⟩
  · match emitted, emitted' with
    | [], [] => exact ⟨rfl, rfl⟩
    | n :: ns, m :: ms =>
      obtain ⟨hn, hns⟩ := List.cons.inj hemitted
      cases n with
      | text t =>
        cases m with
        | text t' =>
          cases hn
          exact ⟨rfl, List.cons_eq_cons.2 ⟨rfl, hns⟩⟩
        | _ => cases hn
      | _ =>
        cases m with
        | text t' => cases hn
        | _ => exact ⟨rfl, List.cons_eq_cons.2 ⟨rfl, hemitted⟩⟩

end Builder.Alike

/-- The nodes of a statement on two lines differ in the line only. -/
theorem unplaced_actionNode {context : HtmlContext} {statement : List Char} {line line' : Nat}
    {m n : Node} (hm : Build.actionNode context statement line = .ok m)
    (hn : Build.actionNode context statement line' = .ok n) :
    Node.unplaced id m = Node.unplaced id n := by
  unfold Build.actionNode at hm hn
  cases hcall : parseTemplateCall statement with
  | error c =>
    rw [hcall] at hm
    cases hm
  | ok call =>
    rw [hcall] at hm hn
    cases call with
    | some call =>
      cases hm
      cases hn
      rfl
    | none =>
      cases hp : parsePipeline statement with
      | error c =>
        simp only [hp] at hm
        cases hm
      | ok p =>
        simp only [hp] at hm hn
        cases hm
        cases hn
        rfl

/-- **A program determines what it is compiled to**, up to the lines. -/
theorem Builds.alike {pad : List Char} {ps : List Part} {b b' c c' : Builder}
    (h : Builds pad ps b b') (hbc : b.Alike c) (h' : Builds pad ps c c') : b'.Alike c' := by
  induction h generalizing c c' with
  | nil =>
    cases h'
    exact hbc
  | text _ ih =>
    cases h' with
    | text h' => exact ih (hbc.text _) h'
  | action hn _ ih =>
    cases h' with
    | action hn' h' =>
      rw [← hbc.context] at hn'
      exact ih (hbc.push (unplaced_actionNode hn hn')) h'
  | branch hp _ _ ihbody ih =>
    cases h' with
    | branch hp' hbody' h' =>
      cases hp.symm.trans hp'
      have hinside := ihbody hbc.inner hbody'
      refine ih (hbc.outer hinside ?_) h'
      rw [Node.unplaced_node, Node.unplaced_node, hinside.nodes]
  | choice hp _ _ _ ihbody ihother ih =>
    cases h' with
    | choice hp' hbody' hother' h' =>
      cases hp.symm.trans hp'
      have hinside := ihbody hbc.inner hbody'
      have hinside' := ihother hinside.inner hother'
      refine ih (hbc.outer hinside' ?_) h'
      rw [Node.unplaced_node, Node.unplaced_node, hinside.nodes, hinside'.nodes]

end Stencil
