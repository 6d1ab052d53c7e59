import Stencil.Proofs.Render.Commands

/-!
# Plain nodes

Nodes that call no composition and run no template depend on the scopes alone, and all that they do is
to write a text and to set variables.

* `Node.IsPlain` are these nodes.
* `Run.Says` are the computations of this kind; the lemmas on it follow the ways in which computations
  are put together.
* `Eval.says_nodes` concludes that plain nodes are of this kind, by recursion over the template.
-/

namespace Stencil

open Render

/-! ## Texts one after the other -/

namespace Output

/-- Frames that let one text through do so with every text. -/
theorem writeFrames_none {a : String} (b : String) : ∀ {fs : List Frame}, writeFrames a fs = none →
    writeFrames b fs = none
  | [], _ => rfl
  | .through :: fs, h => by
    rw [writeFrames, Option.map_eq_none_iff] at h ⊢
    exact writeFrames_none b h

theorem writeFrames_some {a : String} (b : String) : ∀ {fs gs : List Frame},
    writeFrames a fs = some gs → ∃ hs, writeFrames b gs = some hs ∧ writeFrames (a ++ b) fs = some hs
  | .capture slot kind text :: fs, _, h => by
    cases h
    exact ⟨_, rfl, by rw [writeFrames, String.append_assoc]⟩
  | .discard :: fs, _, h => by
    cases h
    exact ⟨_, rfl, rfl⟩
  | .through :: fs, _, h => by
    rw [writeFrames] at h
    obtain ⟨gs, hgs, rfl⟩ := Option.map_eq_some_iff.1 h
    obtain ⟨hs, hb, hab⟩ := writeFrames_some b hgs
    exact ⟨.through :: hs, by rw [writeFrames, hb]; rfl, by rw [writeFrames, hab]; rfl⟩

/-- **Two texts are written as one.** -/
theorem write_write (o : Output) (a b : String) : (o.write a).write b = o.write (a ++ b) := by
  cases ha : writeFrames a o.frames with
  | none =>
    unfold write
    rw [ha, writeFrames_none (a ++ b) ha]
    by_cases hroot : o.discardsRoot = true
    · simp [hroot, writeFrames_none b ha]
    · simp [hroot, writeFrames_none b ha, String.append_assoc]
  | some gs =>
    obtain ⟨hs, hb, hab⟩ := writeFrames_some b ha
    unfold write
    rw [ha, hab]
    dsimp only
    rw [hb]

end Output

/-! ## Computations that write and set variables -/

namespace Run

variable {α β : Type}

/-- A computation that succeeds has written a text and changed the scopes, and it does the same from
every state with the same scopes. -/
def Says (act : Run α) : Prop :=
  ∀ s a u, act s = .ok a u → ∃ text scopes, ∀ t : State, t.scopes = s.scopes →
    act t = .ok a { t with scopes, output := t.output.write text }

namespace Says

theorem fail (c : Cause) : Says (Run.fail c : Run α) := fun _ _ _ h => nomatch h

theorem of_reads {act : Run α} (h : OnlyReads act) : Says act := by
  intro s a u hact
  refine ⟨"", s.scopes, fun t ht => ?_⟩
  rcases h.cases s with ⟨b, hb⟩ | ⟨f, hf⟩
  · cases (hb s rfl).symm.trans hact
    rw [hb t ht, Output.write_empty, ← ht]
  · cases (hf s rfl).symm.trans hact

theorem pure (a : α) : Says (Pure.pure a : Run α) := .of_reads (.lift (.ok a))

theorem lift (o : Outcome α) : Says (Run.lift o) := .of_reads (.lift o)

theorem write (text : String) : Says (Run.write text) := by
  intro s a u h
  cases h
  exact ⟨text, s.scopes, fun t ht => by rw [← ht]; rfl⟩

/-- The scopes are changed in a way that depends on them alone. -/
theorem setScopes (f : Scopes → Scopes) :
    Says (modify fun s => { s with scopes := f s.scopes } : Run PUnit) := by
  intro s a u h
  cases h
  refine ⟨"", f s.scopes, fun t ht => ?_⟩
  rw [Output.write_empty, ← ht]
  rfl

theorem bind {act : Run α} {k : α → Run β} (h : Says act) (hk : ∀ a, Says (k a)) :
    Says (act >>= k) := by
  intro s b v hrun
  obtain ⟨a, u, hact, hnext⟩ := bind_eq_ok hrun
  obtain ⟨text, scopes, hsaid⟩ := h s a u hact
  obtain ⟨text', scopes', hsaid'⟩ := hk a u b v hnext
  have hu : u.scopes = scopes := by
    cases hact.symm.trans (hsaid s rfl)
    rfl
  refine ⟨text ++ text', scopes', fun t ht => ?_⟩
  rw [bind_ok (hsaid t ht), hsaid' _ hu.symm, ← Output.write_write]

theorem located {act : Run α} (template : String) (line : Nat) (h : Says act) :
    Says (Run.located template line act) := by
  intro s a u hrun
  obtain ⟨text, scopes, hsaid⟩ := h s a u (located_eq_ok hrun)
  exact ⟨text, scopes, fun t ht => located_ok (hsaid t ht)⟩

theorem inScope {act : Run α} (enter : Scopes → Scopes) (h : Says act) :
    Says (Run.inScope enter act) := by
  intro s a u hrun
  obtain ⟨v, hact, -⟩ := inScope_eq_ok hrun
  obtain ⟨text, scopes, hsaid⟩ := h _ a v hact
  exact ⟨text, scopes.tail, fun t ht =>
    inScope_ok (hsaid { t with scopes := enter t.scopes } (congrArg enter ht))⟩

end Says

end Run

/-! ## Plain nodes -/

namespace Node

mutual

/-- The node calls no composition and runs no template. -/
def IsPlain : Node → Prop
  | .text _ => True
  | .action _ _ p => Eval.CallsHave Eval.IsPlain p.leaves
  | .cond _ _ p body otherwise =>
    Eval.CallsHave Eval.IsPlain p.leaves ∧ ArePlain body ∧ ArePlain otherwise
  | .range _ p body otherwise =>
    Eval.CallsHave Eval.IsPlain p.leaves ∧ ArePlain body ∧ ArePlain otherwise
  | .scope _ p body otherwise =>
    Eval.CallsHave Eval.IsPlain p.leaves ∧ ArePlain body ∧ ArePlain otherwise
  | .template .. => False

/-- All of the nodes are plain. -/
def ArePlain : List Node → Prop
  | [] => True
  | n :: ns => IsPlain n ∧ ArePlain ns

end

end Node

namespace Eval

open Run

variable {e : Environment} {run : Runner} {context : HtmlContext}

theorem says_assign (name : String) (v : Value) : Says (assign name v) := by
  intro s a u h
  rw [assign, get_bind] at h
  cases ha : Scopes.assign? name v s.scopes with
  | none =>
    rw [ha] at h
    exact nomatch h
  | some scopes =>
    refine ⟨"", scopes, fun t ht => ?_⟩
    rw [assign, get_bind, ht, ha, Output.write_empty]
    rfl

theorem says_bind (assigns : Bool) (v : Value) (names : List String) :
    Says (Eval.bind assigns v names) := by
  induction names with
  | nil => exact .pure ()
  | cons name names ih =>
    cases assigns with
    | false => exact .bind (.setScopes (Scopes.declare name v)) fun _ => ih
    | true => exact .bind (says_assign name v) fun _ => ih

theorem says_commands {cs : List (List Expr)} (h : CallsHave IsPlain (Expr.leavesOfCommands cs)) :
    Says (commands e run context none cs) :=
  .of_reads ((passing_reads e run context).commands cs none h)

theorem says_pipeline {p : Pipeline} (h : CallsHave IsPlain p.leaves) :
    Says (pipeline e run context p) :=
  .bind (says_commands h) fun v => .bind (says_bind p.assigns v p.targets) fun _ => .pure v

theorem says_bindPair (key item : Value) (targets : List String) :
    Says (bindPair key item targets) := by
  match targets with
  | [] => exact .pure ()
  | [x] => exact .setScopes (Scopes.declare x item)
  | [k, x] => exact .bind (.setScopes (Scopes.declare k key)) fun _ =>
      .setScopes (Scopes.declare x item)
  | _ :: _ :: _ :: _ => exact .pure ()

theorem says_passes (targets : List String) {body : Run PUnit} (h : Says body)
    (ps : List (Value × Value)) : Says (passes targets body ps) := by
  induction ps with
  | nil => exact .pure ()
  | cons p ps ih =>
    exact .bind (.inScope _ (.bind (says_bindPair p.1 p.2 targets) fun _ => h)) fun _ => ih

theorem says_loop (targets : List String) {body otherwise : Run PUnit} (h : Says body)
    (hother : Says otherwise) (ps : Value.Pairs) : Says (loop targets body otherwise ps) := by
  rw [loop_eq]
  split
  · exact hother
  · exact says_passes targets h ps.toList

mutual

theorem says_node (t : Template) : ∀ n : Node, n.IsPlain → Says (node e run t n)
  | .text s, _ => .write s
  | .action line context p, hp => by
    rw [Node.IsPlain] at hp
    refine .bind (.located t.name line (says_pipeline hp)) fun v => ?_
    split
    · exact .write _
    · exact .pure ()
  | .cond line negated p body otherwise, hn => by
    rw [Node.IsPlain] at hn
    refine .inScope _ <| .bind (.located t.name line (says_pipeline hn.1)) fun v => ?_
    split
    · exact .inScope _ (says_nodes t body hn.2.1)
    · exact .inScope _ (says_nodes t otherwise hn.2.2)
  | .range line p body otherwise, hn => by
    rw [Node.IsPlain] at hn
    refine .located t.name line <| .inScope _ <| .bind (says_commands hn.1) fun v =>
      .bind (.lift _) fun ps => ?_
    exact says_loop p.targets (says_nodes t body hn.2.1) (.inScope _ (says_nodes t otherwise hn.2.2)) ps
  | .scope line p body otherwise, hn => by
    rw [Node.IsPlain] at hn
    refine .inScope _ <| .bind (.located t.name line (says_pipeline hn.1)) fun v => ?_
    split
    · exact .inScope _ (says_nodes t body hn.2.1)
    · exact .inScope _ (says_nodes t otherwise hn.2.2)
  | .template line name p, hn => by
    rw [Node.IsPlain] at hn
    exact hn.elim

/-- **Plain nodes write a text and set variables**, in a way that depends on the scopes alone. -/
theorem says_nodes (t : Template) : ∀ ns : List Node, Node.ArePlain ns → Says (nodes e run t ns)
  | [], _ => .pure ()
  | n :: ns, hns => by
    rw [Node.ArePlain] at hns
    exact .bind (says_node t n hns.1) fun _ => says_nodes t ns hns.2

end

end Eval

end Stencil
