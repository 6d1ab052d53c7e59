import Stencil.Proofs.Delimited.Compiling
import Stencil.Proofs.Template.Marks

/-!
# Merged text

What is written to a builder is in normal form: text that stands next to text is one node, and there is
no node for no text. This holds of the nodes of every body as well.

* `Node.bodies` are the lists of nodes inside a node at any depth, and `Template.lists` those of a
  template.
* `Merged` says what the normal form of a list is, and `Normal` that it and all lists inside have this
  form.
* `Build.Merges P` says that a computation keeps the nodes of a builder in normal form and that its value
  has `P`; this holds for all that a front end writes.
-/

namespace Stencil

/-! ## Lists of nodes -/

namespace Node

mutual

/-- The lists of nodes inside a node, at any depth. -/
def bodies : Node → List (List Node)
  | .text _ => []
  | .action .. => []
  | .cond _ _ _ body otherwise => body :: otherwise :: (bodiesOf body ++ bodiesOf otherwise)
  | .range _ _ body otherwise => body :: otherwise :: (bodiesOf body ++ bodiesOf otherwise)
  | .scope _ _ body otherwise => body :: otherwise :: (bodiesOf body ++ bodiesOf otherwise)
  | .template .. => []

/-- The lists of nodes inside some nodes. -/
def bodiesOf : List Node → List (List Node)
  | [] => []
  | n :: ns => bodies n ++ bodiesOf ns

end

theorem mem_bodiesOf {l : List Node} {ns : List Node} : l ∈ bodiesOf ns ↔ ∃ n ∈ ns, l ∈ n.bodies := by
  induction ns with
  | nil => simp [bodiesOf]
  | cons n ns ih => simp [bodiesOf, ih]

end Node

/-- The lists of nodes of a template: its own, and those of all branches. -/
def Template.lists (t : Template) : List (List Node) := t.nodes :: Node.bodiesOf t.nodes

/-! ## The normal form -/

/-- No text is empty, and no text stands next to another one. -/
structure Merged (ns : List Node) : Prop where
  nonempty : .text "" ∉ ns
  apart : ∀ s t, ¬ [.text s, .text t] <:+: ns

namespace Merged

variable {ns : List Node} {n : Node}

theorem nil : Merged [] := ⟨List.not_mem_nil, fun _ _ h => by simpa using h.length_le⟩

theorem reverse (h : Merged ns) : Merged ns.reverse := by
  refine ⟨mt List.mem_reverse.1 h.nonempty, fun s t hinfix => h.apart t s ?_⟩
  rw [← List.reverse_infix]
  exact hinfix

theorem tail (h : Merged (n :: ns)) : Merged ns :=
  ⟨mt (List.mem_cons_of_mem n) h.nonempty, fun s t hinfix => h.apart s t (List.infix_cons hinfix)⟩

/-- A node that is no text may stand anywhere. -/
theorem cons (h : Merged ns) (hn : ∀ s, n ≠ .text s) : Merged (n :: ns) := by
  refine ⟨?_, fun s t hinfix => ?_⟩
  · rw [List.mem_cons, not_or]
    exact ⟨(hn "").symm, h.nonempty⟩
  · rcases List.infix_cons_iff.1 hinfix with hprefix | hinfix
    · exact hn s (List.cons_prefix_cons.1 hprefix).1.symm
    · exact h.apart s t hinfix

theorem cons_text (h : Merged ns) {s : String} (hs : s ≠ "") (hhead : ∀ t, .text t ∉ ns.head?) :
    Merged (.text s :: ns) := by
  refine ⟨?_, fun u v hinfix => ?_⟩
  · rw [List.mem_cons, not_or]
    exact ⟨fun heq => hs (Node.text.inj heq).symm, h.nonempty⟩
  · rcases List.infix_cons_iff.1 hinfix with hprefix | hinfix
    · obtain ⟨ms, rfl⟩ := (List.cons_prefix_cons.1 hprefix).2
      exact hhead v rfl
    · exact h.apart u v hinfix

/-- What follows a text does not start with one. -/
theorem head?_tail {s : String} (h : Merged (.text s :: ns)) (t : String) : .text t ∉ ns.head? := by
  intro hmem
  obtain ⟨ms, rfl⟩ := List.head?_eq_some_iff.1 hmem
  exact h.apart s t ⟨[], ms, rfl⟩

end Merged

/-- The nodes are in normal form, and so are the nodes of every body inside of them. -/
structure Normal (ns : List Node) : Prop where
  merged : Merged ns
  inside : ∀ n ∈ ns, ∀ l ∈ n.bodies, Merged l

namespace Normal

variable {ns : List Node} {n : Node}

theorem nil : Normal [] := ⟨.nil, nofun⟩

theorem reverse (h : Normal ns) : Normal ns.reverse :=
  ⟨h.merged.reverse, fun n hn => h.inside n (List.mem_reverse.1 hn)⟩

/-- Every list inside is in normal form. -/
theorem bodiesOf (h : Normal ns) {l : List Node} (hl : l ∈ Node.bodiesOf ns) : Merged l := by
  obtain ⟨n, hn, hl⟩ := Node.mem_bodiesOf.1 hl
  exact h.inside n hn l hl

theorem cons (h : Normal ns) (hn : ∀ s, n ≠ .text s) (hbodies : ∀ l ∈ n.bodies, Merged l) :
    Normal (n :: ns) :=
  ⟨h.merged.cons hn, List.forall_mem_cons.2 ⟨hbodies, h.inside⟩⟩

theorem lists {t : Template} (h : Normal t.nodes) : ∀ ns ∈ t.lists, Merged ns :=
  List.forall_mem_cons.2 ⟨h.merged, fun _ => h.bodiesOf⟩

end Normal

theorem Normal.mergeText {ns : List Node} (h : Normal ns) {s : String} (hs : s ≠ "") :
    Normal (Builder.mergeText s ns) := by
  match ns with
  | [] => exact ⟨Merged.nil.cons_text hs nofun, List.forall_mem_cons.2 ⟨nofun, nofun⟩⟩
  | n :: ns =>
    have hns : Merged ns := h.merged.tail
    have hinside := (List.forall_mem_cons.1 h.inside).2
    cases n with
    | text t =>
      refine ⟨hns.cons_text ?_ h.merged.head?_tail, List.forall_mem_cons.2 ⟨nofun, hinside⟩⟩
      exact fun heq => hs (String.append_eq_empty_iff.1 heq).2
    | _ => exact ⟨h.merged.cons_text hs nofun, List.forall_mem_cons.2 ⟨nofun, h.inside⟩⟩

/-- The bodies of a branch with two of them are these and what is inside. -/
theorem merged_of_branch {body otherwise : List Node} (hbody : Normal body) (hother : Normal otherwise) :
    ∀ l ∈ body :: otherwise :: (Node.bodiesOf body ++ Node.bodiesOf otherwise), Merged l := by
  refine List.forall_mem_cons.2 ⟨hbody.merged, List.forall_mem_cons.2 ⟨hother.merged, fun l hl => ?_⟩⟩
  rcases List.mem_append.1 hl with hl | hl
  · exact hbody.bodiesOf hl
  · exact hother.bodiesOf hl

/-! ## Builders -/

namespace Builder

/-- The nodes written so far are in normal form. -/
def Normal (b : Builder) : Prop := Stencil.Normal b.emitted

variable {b : Builder}

theorem Normal.nodes (h : b.Normal) : Stencil.Normal b.nodes := Stencil.Normal.reverse h

theorem Normal.push (h : b.Normal) {n : Node} (hn : ∀ s, n ≠ .text s)
    (hbodies : ∀ l ∈ n.bodies, Merged l) : (b.push n).Normal := h.cons hn hbodies

/-- **Text is merged with the text before it.** -/
theorem Normal.text (h : b.Normal) (s : String) : (b.text s).Normal := by
  by_cases hs : s = ""
  · rw [hs]
    exact h
  · rw [Builder.text_of_ne hs]
    exact h.mergeText hs

end Builder

/-! ## Computations -/

namespace Build

variable {α β : Type} {P : α → Prop} {Q : β → Prop}

/-- A computation that succeeds keeps the nodes in normal form, and its value has a property. -/
def Merges (P : α → Prop) (act : Build α) : Prop :=
  ∀ b a b', act b = .ok a b' → b.Normal → P a ∧ b'.Normal

/-- A computation that succeeds keeps the nodes in normal form. -/
abbrev KeepsMerged (act : Build α) : Prop := Merges (fun _ => True) act

namespace Merges

theorem pure {a : α} (h : P a) : Merges P (Pure.pure a : Build α) := fun _ _ _ hrun hb => by
  cases hrun
  exact ⟨h, hb⟩

theorem throw (f : Fault) : Merges P (MonadExcept.throw f : Build α) := fun _ _ _ h => nomatch h

theorem bind {act : Build α} {k : α → Build β} (h : Merges P act) (hk : ∀ a, P a → Merges Q (k a)) :
    Merges Q (act >>= k) := by
  intro b c b' hrun hb
  obtain ⟨a, b₁, hact, hrun⟩ := bind_eq_ok.1 hrun
  obtain ⟨ha, hb₁⟩ := h b a b₁ hact hb
  exact hk a ha b₁ c b' hrun hb₁

theorem seq {act : Build α} {k : α → Build β} (h : KeepsMerged act) (hk : ∀ a, Merges Q (k a)) :
    Merges Q (act >>= k) := h.bind fun a _ => hk a

theorem getState {k : Builder → Build β} (hk : ∀ b, b.Normal → Merges Q (k b)) :
    Merges Q ((get : Build Builder) >>= k) := fun b c b' h hb => hk b hb b c b' h hb

theorem modifyState {f : Builder → Builder} (h : ∀ b, b.Normal → (f b).Normal) :
    KeepsMerged (modify f : Build PUnit) := fun b _ _ hf hb => by
  cases hf
  exact ⟨trivial, h b hb⟩

theorem text (t : String) : KeepsMerged (Build.text t) := .modifyState fun _ h => h.text t

theorem space (pad : Bool) : KeepsMerged (Build.space pad) := by
  cases pad with
  | true => exact text " "
  | false => exact .pure trivial

theorem pipeline (statement : List Char) (line : Nat) : KeepsMerged (Build.pipeline statement line) := by
  unfold Build.pipeline
  split
  · exact .pure trivial
  · exact .throw _

/-- The node of a statement has no body. -/
theorem push_actionNode {context : HtmlContext} {statement : List Char} {line : Nat} {n : Node}
    (h : actionNode context statement line = .ok n) :
    KeepsMerged (modify (·.push n) : Build PUnit) := by
  refine .modifyState fun b hb => ?_
  unfold actionNode at h
  obtain ⟨call, -, h⟩ := Outcome.bind_eq_ok.1 h
  split at h
  · cases h
    exact hb.push nofun nofun
  · obtain ⟨p, -, h⟩ := Outcome.bind_eq_ok.1 h
    cases h
    exact hb.push nofun nofun

theorem action (statement : List Char) (line : Nat) : KeepsMerged (Build.action statement line) := by
  refine .getState fun b _ => ?_
  split
  · next n hn => exact push_actionNode hn
  · exact .throw _

/-- What is kept of an interpolation is merged with the text around it. -/
theorem interpolation (s : Settings) (pad : Bool) (line : Nat) (statement : List Char) :
    KeepsMerged (Build.interpolation s pad line statement) := by
  refine .getState fun b _ => ?_
  split
  · next n hn => exact push_actionNode hn
  · dsimp only
    split
    · exact .throw _
    · exact .seq (.modifyState fun _ h => h) fun _ => .seq (.text _) fun _ => .space _

/-- The nodes of a body are in normal form, and those around it stay so. -/
theorem nested {act : Build PUnit} (h : KeepsMerged act) : Merges Normal (Build.nested act) :=
  .getState fun _ hb => .seq (.modifyState fun _ _ => .nil) fun _ => .seq h fun _ =>
    .getState fun _ hinside => .seq (.modifyState fun _ _ => hb) fun _ => .pure hinside.nodes

end Merges

end Build

end Stencil
