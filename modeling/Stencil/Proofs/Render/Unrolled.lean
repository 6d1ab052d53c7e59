import Stencil.Proofs.Render.Variables

/-!
# Loops, unrolled

A loop over a list does what its passes do one after the other, each written down as a node that opens a
scope with one element of the list.

* `Run.Placed` says that the faults of a computation have a place, so that another place changes nothing
  in them; `Eval.placed_nodes` says so of nodes.
* `Eval.inScope_seq` takes a scope around two computations apart where nothing is declared in it.
* `Eval.nodes_elements` compares the passes with the nodes of the elements.
* `Eval.range_unrolled` puts these together, and says which of its bodies a loop runs.
-/

namespace Stencil

open Render

/-! ## Faults with a place -/

namespace Run

variable {α β : Type}

/-- Every fault of the computation has a place. -/
def Placed (act : Run α) : Prop := ∀ s f u, act s = .error f u → f.template ≠ none

/-- The first place of a fault stays. -/
theorem located_of_placed {act : Run α} (h : Placed act) (template : String) (line : Nat) :
    Run.located template line act = act := by
  funext s
  unfold Run.located
  cases hact : act s with
  | ok a u => rfl
  | error f u =>
    obtain ⟨name, hname⟩ := Option.ne_none_iff_exists'.1 (h s f u hact)
    dsimp only
    rw [Fault.atPlace, hname]

namespace Placed

theorem pure (a : α) : Placed (Pure.pure a : Run α) := fun _ _ _ h => nomatch h

theorem modify (f : State → State) : Placed (modify f : Run PUnit) := fun _ _ _ h => nomatch h

theorem located (template : String) (line : Nat) (act : Run α) :
    Placed (Run.located template line act) := by
  intro s f u h
  obtain ⟨g, -, rfl⟩ := located_eq_error h
  unfold Fault.atPlace Fault.atLine
  split
  · next name hname => exact hname ▸ Option.some_ne_none _
  · split <;> exact Option.some_ne_none _

theorem bind {act : Run α} {k : α → Run β} (h : Placed act) (hk : ∀ a, Placed (k a)) :
    Placed (act >>= k) := by
  intro s f u hrun
  rcases bind_eq_error hrun with hact | ⟨a, v, -, hnext⟩
  · exact h s f u hact
  · exact hk a v f u hnext

theorem inScope {act : Run α} (enter : Scopes → Scopes) (h : Placed act) :
    Placed (Run.inScope enter act) := by
  intro s f u hrun
  obtain ⟨v, hact, -⟩ := inScope_eq_error hrun
  exact h _ f v hact

end Placed

end Run

namespace Eval

open Run

variable {e : Environment} {run : Runner}

theorem placed_write (text : String) : Placed (Run.write text) := .modify _

mutual

theorem placed_node (t : Template) : ∀ n : Node, Placed (node e run t n)
  | .text s => placed_write s
  | .action line context p => by
    refine .bind (.located t.name line _) fun v => ?_
    split
    · exact placed_write _
    · exact .pure ()
  | .cond line negated p body otherwise => by
    refine .inScope _ <| .bind (.located t.name line _) fun v => ?_
    split
    · exact .inScope _ (placed_nodes t body)
    · exact .inScope _ (placed_nodes t otherwise)
  | .range line p body otherwise => .located t.name line _
  | .scope line p body otherwise => by
    refine .inScope _ <| .bind (.located t.name line _) fun v => ?_
    split
    · exact .inScope _ (placed_nodes t body)
    · exact .inScope _ (placed_nodes t otherwise)
  | .template line name none =>
    .bind (.pure _) fun dot => .bind (.located t.name line _) fun text => placed_write text
  | .template line name (some p) =>
    .bind (.located t.name line _) fun dot => .bind (.located t.name line _) fun text =>
      placed_write text

/-- **Every fault of a node has a place.** -/
theorem placed_nodes (t : Template) : ∀ ns : List Node, Placed (nodes e run t ns)
  | [] => .pure ()
  | n :: ns => .bind (placed_node t n) fun _ => placed_nodes t ns

end

/-- The passes of a loop without variables have no faults but those of the body. -/
theorem placed_passes {body : Run PUnit} (h : Placed body) (ps : List (Value × Value)) :
    Placed (passes [] body ps) := by
  induction ps with
  | nil => exact .pure ()
  | cons p ps ih => exact .bind (.inScope _ (.bind (.pure ()) fun _ => h)) fun _ => ih

end Eval

/-! ## A scope around several computations -/

namespace Scopes

/-- A scope that has been opened and has got no variables is what opens it again. -/
theorem eq_pushSame_tail {ss us : Scopes} (h : us.shape = (pushSame ss).shape) :
    us = pushSame us.tail ∧ shape us.tail = ss.shape := by
  match us, h with
  | ⟨dot', bs⟩ :: us, h =>
    obtain ⟨hscope, htail⟩ := List.cons.inj h
    obtain ⟨hdot, hnames⟩ := Prod.mk.inj hscope
    have hbs : bs = [] := List.map_eq_nil_iff.1 hnames
    refine ⟨?_, htail⟩
    rw [List.tail_cons, pushSame, push, dot_eq_of_shape htail, hbs]
    exact congrArg (fun d => (⟨d, []⟩ : Scope) :: us) hdot

end Scopes

namespace Eval

open Run

section Sequence

variable {act : Run PUnit} (h : ∀ s, (act.final s).scopes.shape = s.scopes.shape)

include h

theorem shape_inScope (s : State) :
    ((Run.inScope Scopes.pushSame act).final s).scopes.shape = s.scopes.shape := by
  rw [Run.inScope, final_guarded]
  exact (Scopes.eq_pushSame_tail (h { s with scopes := Scopes.pushSame s.scopes })).2

/-- A scope around two computations is a scope around each, where the first one leaves no variables in
it. -/
theorem inScope_seq (next : Run PUnit) : Run.inScope Scopes.pushSame (act >>= fun _ => next) =
    (Run.inScope Scopes.pushSame act >>= fun _ => Run.inScope Scopes.pushSame next) := by
  funext s
  have hshape := h { s with scopes := Scopes.pushSame s.scopes }
  cases hact : act { s with scopes := Scopes.pushSame s.scopes } with
  | error f u => rw [bind_error (inScope_error hact), inScope_error (bind_error hact _)]
  | ok a u =>
    rw [final_of_ok hact] at hshape
    -- the scope is empty behind the first computation: to open it again gives the same state
    have hagain : { u with scopes := Scopes.pushSame u.scopes.tail } = u := by
      rw [← (Scopes.eq_pushSame_tail hshape).1]
    have hnext : next { u with scopes := Scopes.pushSame u.scopes.tail } = next u := by rw [hagain]
    rw [bind_ok (inScope_ok hact)]
    cases hrun : next u with
    | ok b v =>
      rw [inScope_ok ((bind_ok hact _).trans hrun)]
      exact (inScope_ok (hnext.trans hrun)).symm
    | error f v =>
      rw [inScope_error ((bind_ok hact _).trans hrun)]
      exact (inScope_error (hnext.trans hrun)).symm

end Sequence

/-! ## The elements of a list -/

/-- A loop over a field of the data, without variables. -/
def rangeOf (line : Nat) (path : List String) (body : List Node) : Node :=
  .range line { commands := [[.field path]] } body []

/-- The body for one element of a field of the data. -/
def elementOf (line : Nat) (path : List String) (body : List Node) (i : Nat) : Node :=
  .scope line { commands := [[.call "index", .field path, .const (.int i)]] } body []

variable (e : Environment) (room : Nat) (t : Template)

/-- Behind one pass the scopes have the same shape. -/
theorem shape_pass (body : List Node) (key item : Value) (s : State) :
    ((pass [] key item (nodes e (runner e room) t body)).final s).scopes.shape =
      s.scopes.shape := by
  have h := (Assigned.encloses_pass [] (Assigned.follows_nodes t e room body) key item).2 s
  rwa [Traced.run_pass, Assigned.run_nodes] at h

theorem operand_field {path : List String} {v : Value} {s : State}
    (h : (Scopes.dot s.scopes).fields path = .ok v) :
    operand e (runner e room) .body (.field path) s = .ok v s := by
  rw [operand, get_bind, h]
  rfl

section Element

variable (hindex : Table.get? "index" e.functions = some Function.index.function) {path : List String}
  {items : List Value} {i : Nat} {v : Value} {s : State}

include hindex

theorem call_index (hv : items[i]? = some v) :
    call e (runner e room) .body "index" [.list items, .int i] s = .ok v s := by
  have hname : Composition.ofName? "index" = none := rfl
  have hat : Value.at? items (i : Int) = some v := by
    rw [Value.at?, if_pos (Int.natCast_nonneg i), Int.toNat_natCast, hv]
  have hitem : Function.index.function [.list items, .int i] = .ok v := by
    simp only [Function.Builtin.function, Function.index, Function.itemAt, Value.item, hat]
    rfl
  unfold call
  simp only [hname, hindex, hitem]
  rfl

/-- The element of the list is taken with `index`. -/
theorem pipeline_element (hitems : (Scopes.dot s.scopes).fields path = .ok (.list items))
    (hv : items[i]? = some v) :
    pipeline e (runner e room) .body
      { commands := [[.call "index", .field path, .const (.int i)]] } s = .ok v s := by
  have hargs : operands e (runner e room) .body [.field path, .const (.int i)] s =
      .ok [.list items, .int i] s := by
    rw [operands, bind_ok (operand_field e room hitems)]
    rfl
  have hcommand : command e (runner e room) .body none
      [.call "index", .field path, .const (.int i)] s = .ok v s := by
    rw [command, bind_ok hargs]
    exact call_index e room hindex hv
  have hcommands : commands e (runner e room) .body none
      [[.call "index", .field path, .const (.int i)]] s = .ok v s := by
    rw [commands, bind_ok hcommand]
    rfl
  rw [pipeline, bind_ok hcommands]
  rfl

/-- An element that is true is what one pass of the loop is about. -/
theorem node_element (hitems : (Scopes.dot s.scopes).fields path = .ok (.list items))
    (hv : items[i]? = some v) (htrue : v.isTrue = true) (line : Nat) (body : List Node)
    (key : Value) :
    node e (runner e room) t (elementOf line path body i) s =
      Run.inScope Scopes.pushSame (pass [] key v (nodes e (runner e room) t body)) s := by
  have hpipeline : pipeline e (runner e room) .body
      { commands := [[.call "index", .field path, .const (.int i)]] }
        { s with scopes := Scopes.pushSame s.scopes } =
      .ok v { s with scopes := Scopes.pushSame s.scopes } :=
    pipeline_element e room hindex hitems hv
  rw [elementOf, node]
  refine inScope_congr ?_
  rw [bind_ok (located_ok hpipeline), if_pos htrue]
  rfl

end Element

/-- **The nodes of the elements do what the passes do**, by induction along the list; `k` elements have
been passed. -/
theorem nodes_elements (hindex : Table.get? "index" e.functions = some Function.index.function)
    {path : List String} {items : List Value} (htrue : ∀ v ∈ items, v.isTrue = true)
    (lines : Nat → Nat) (body : List Node) : ∀ (rest : List Value) (k : Nat), items.drop k = rest →
    ∀ s : State, (Scopes.dot s.scopes).fields path = .ok (.list items) →
      nodes e (runner e room) t ((List.range' k rest.length).map fun i =>
        elementOf (lines i) path body i) s =
      Run.inScope Scopes.pushSame (passes [] (nodes e (runner e room) t body)
        (Value.indexed k rest)) s
  | [], k, _, s, _ => rfl
  | v :: rest, k, hdrop, s, hitems => by
    have hv : items[k]? = some v := by
      rw [← List.head?_drop, hdrop, List.head?_cons]
    have hmem : v ∈ items := List.mem_of_getElem? hv
    have hrest : items.drop (k + 1) = rest := by
      rw [← List.tail_drop, hdrop, List.tail_cons]
    have hnode := node_element e room t hindex hitems hv (htrue v hmem) (lines k) body (.int k)
    rw [List.length_cons, List.range'_succ, List.map_cons, nodes, Value.indexed, passes,
      inScope_seq (shape_pass e room t body _ v)]
    cases hpass : Run.inScope Scopes.pushSame (pass [] (.int k) v (nodes e (runner e room) t body)) s with
    | error f u => rw [bind_error hpass, bind_error (hnode.trans hpass)]
    | ok a u =>
      rw [bind_ok hpass, bind_ok (hnode.trans hpass)]
      -- the body may have assigned variables, but it has left the data, and so the list, as they were
      have hshape := shape_inScope (shape_pass e room t body (.int k) v) s
      rw [final_of_ok hpass] at hshape
      refine nodes_elements hindex htrue lines body rest (k + 1) hrest u ?_
      rw [Scopes.dot_eq_of_shape hshape, hitems]

/-! ## What a loop runs -/

variable {e room t}

/-- The part of a loop that follows on its subject. -/
def ranged (e : Environment) (run : Runner) (t : Template) (line : Nat) (p : Pipeline)
    (rest : Value → Run PUnit) : Run PUnit :=
  Run.located t.name line <| Run.inScope Scopes.pushSame do
    let v ← commands e run .body none p.commands
    rest v

/-- What follows on the subject matters for its value only. -/
theorem ranged_congr {run : Runner} {line : Nat} {p : Pipeline} {rest rest' : Value → Run PUnit}
    {s u : State} {v : Value} (h : commands e run .body none p.commands
      { s with scopes := Scopes.pushSame s.scopes } = .ok v u) (hrest : rest v u = rest' v u) :
    ranged e run t line p rest s = ranged e run t line p rest' s := by
  refine located_congr (inScope_congr ?_)
  rw [bind_ok h, bind_ok h, hrest]

end Eval

/-- There is nothing in the value that a loop could run through. -/
def Value.IsBare (v : Value) : Prop :=
  v = .undefined ∨ v = .none ∨ v = .list [] ∨ v = .map [] ∨ v = .int 0

theorem Value.isBare_iff (v : Value) : v.IsBare ↔ ∃ ps, v.pairs = .ok ps ∧ ps.toList = [] := by
  constructor
  · rintro (rfl | rfl | rfl | rfl | rfl)
    · exact ⟨_, rfl, rfl⟩
    · exact ⟨_, rfl, rfl⟩
    · exact ⟨_, rfl, rfl⟩
    · exact ⟨_, rfl, by rw [Table.inOrder, List.mergeSort_nil]; rfl⟩
    · exact ⟨_, rfl, rfl⟩
  · rintro ⟨ps, hps, hnone⟩
    unfold IsBare
    cases v with
    | undefined => exact .inl rfl
    | none => exact .inr (.inl rfl)
    | list items =>
      cases hps
      cases items with
      | nil => exact .inr (.inr (.inl rfl))
      | cons v vs => cases hnone
    | map entries =>
      cases hps
      have hentries : entries = [] := by
        have hperm := Table.inOrder_perm entries
        rw [List.map_eq_nil_iff.1 hnone] at hperm
        exact hperm.nil_eq.symm
      exact .inr (.inr (.inr (.inl (congrArg Value.map hentries))))
    | int n =>
      rw [Value.pairs] at hps
      split at hps
      · next hn =>
        cases hps
        have hbelow : n.toNat = 0 := by simpa [Pairs.toList] using hnone
        have hzero : n = 0 := by omega
        exact .inr (.inr (.inr (.inr (congrArg Value.int hzero))))
      · cases hps
    | bool b => cases hps
    | float x => cases hps
    | string s safe => cases hps
    | fallback template => cases hps

namespace Eval

open Run

theorem node_range (line : Nat) (p : Pipeline) (body otherwise : List Node) :
    node e (runner e room) t (.range line p body otherwise) =
      ranged e (runner e room) t line p fun v => Run.lift v.pairs >>=
        loop p.targets (nodes e (runner e room) t body)
          (Run.inScope Scopes.pushSame (nodes e (runner e room) t otherwise)) := by
  rw [node]
  rfl

/-- A loop without other nodes has its passes only. -/
theorem loop_passes (targets : List String) (body : Run PUnit) (ps : Value.Pairs) (s : State) :
    loop targets body (Run.inScope Scopes.pushSame (nodes e (runner e room) t [])) ps s =
      passes targets body ps.toList s := by
  rw [loop_eq]
  split
  · next hnone => rw [hnone]; rfl
  · rfl

theorem node_rangeOf {path : List String} {items : List Value} {s : State}
    (hitems : (Scopes.dot s.scopes).fields path = .ok (.list items)) (line : Nat) (body : List Node) :
    node e (runner e room) t (rangeOf line path body) s =
      Run.inScope Scopes.pushSame (passes [] (nodes e (runner e room) t body)
        (Value.indexed 0 items)) s := by
  have hcommands : commands e (runner e room) .body none [[.field path]]
      { s with scopes := Scopes.pushSame s.scopes } =
        .ok (.list items) { s with scopes := Scopes.pushSame s.scopes } := by
    have hcommand : command e (runner e room) .body none [.field path]
        { s with scopes := Scopes.pushSame s.scopes } =
          .ok (.list items) { s with scopes := Scopes.pushSame s.scopes } := by
      rw [command_single (x := .field path) nofun, if_pos Option.isNone_none]
      exact operand_field e room hitems
    rw [commands, bind_ok hcommand]
    rfl
  have hplaced : Placed (Run.inScope Scopes.pushSame (passes [] (nodes e (runner e room) t body)
      (Value.indexed 0 items))) := .inScope _ (placed_passes (placed_nodes t body) _)
  rw [← located_of_placed hplaced t.name line, rangeOf, node_range]
  refine located_congr (inScope_congr ?_)
  rw [bind_ok hcommands]
  exact loop_passes [] _ (.listed (Value.indexed 0 items)) _

/-- **A loop over a list is unrolled.** The list is a field of the data and all of its elements are true,
and the loop declares no variables. Then the loop is the same as the nodes of its elements one after the
other, in what it writes, in the state that it leaves and in its faults. Whatever a loop is about, it
runs its other nodes and not the body if there is nothing in the value, it has one pass of the body for
each element and does not run the other nodes if there is something, and it fails without running any
if the value is none to run through. -/
theorem range_unrolled (e : Environment) (room : Nat) (t : Template)
    (hindex : Table.get? "index" e.functions = some Function.index.function) {path : List String}
    {items : List Value} {s : State}
    (hitems : (Scopes.dot s.scopes).fields path = .ok (.list items))
    (htrue : ∀ v ∈ items, v.isTrue = true) (body : List Node) (line : Nat) (lines : Nat → Nat) :
    node e (runner e room) t (rangeOf line path body) s =
      nodes e (runner e room) t
        ((List.range items.length).map fun i => elementOf (lines i) path body i) s ∧
    ∀ (line : Nat) (p : Pipeline) (body otherwise : List Node) (r u : State) (v : Value),
      commands e (runner e room) .body none p.commands
        { r with scopes := Scopes.pushSame r.scopes } = .ok v u →
      let loop := node e (runner e room) t (.range line p body otherwise) r
      let continued rest := ranged e (runner e room) t line p (fun _ => rest) r
      (v.IsBare → loop = continued
        (Run.inScope Scopes.pushSame (nodes e (runner e room) t otherwise))) ∧
      (¬ v.IsBare → ∀ ps, v.pairs = .ok ps → ps.toList ≠ [] ∧ loop = continued
        (passes p.targets (nodes e (runner e room) t body) ps.toList)) ∧
      ∀ c, v.pairs = .error c → loop = continued (Run.fail c) := by
  refine ⟨?_, fun line p body otherwise r u v hv => ⟨fun hbare => ?_, fun hbare ps hps => ?_,
    fun c hc => ?_⟩⟩
  · rw [node_rangeOf hitems, List.range_eq_range']
    exact (nodes_elements e room t hindex htrue lines body items 0 rfl s hitems).symm
  · obtain ⟨ps, hps, hnone⟩ := v.isBare_iff.1 hbare
    rw [node_range]
    refine ranged_congr hv ?_
    rw [hps]
    change Eval.loop _ _ _ ps u = _
    rw [loop_eq, if_pos hnone]
  · have hsome : ps.toList ≠ [] := fun hnone => hbare (v.isBare_iff.2 ⟨ps, hps, hnone⟩)
    refine ⟨hsome, ?_⟩
    rw [node_range]
    refine ranged_congr hv ?_
    rw [hps]
    change Eval.loop _ _ _ ps u = _
    rw [loop_eq, if_neg hsome]
  · rw [node_range]
    refine ranged_congr hv ?_
    rw [hc]
    rfl

/-- An environment with the function that takes elements. -/
def indexing : Environment where
  functions := [("index", Function.index.function)]

/-- A state in which the data has a list of two elements. -/
def twoItems : State where
  context := {}
  scopes := Scopes.start (.map [("items", .list [.int 1, .text "b"])])

/-- The loop writes both elements; a loop over a field that is missing runs its other nodes. -/
theorem range_unrolled_twoItems :
    let t : Template := { name := "page", nodes := [] }
    let body : List Node := [.action 2 .body { commands := [[.dot]] }]
    let loop := node indexing (runner indexing 1) t (rangeOf 1 ["items"] body) twoItems
    let other := node indexing (runner indexing 1) t
      (.range 1 { commands := [[.field ["missing"]]] } body [.text "none"]) twoItems
    loop = nodes indexing (runner indexing 1) t
      [elementOf 3 ["items"] body 0, elementOf 4 ["items"] body 1] twoItems ∧
    (∃ u, loop = .ok ⟨⟩ u ∧ u.output.root = "1b") ∧
    other = ranged indexing (runner indexing 1) t 1 { commands := [[.field ["missing"]]] }
      (fun _ => Run.inScope Scopes.pushSame (nodes indexing (runner indexing 1) t [.text "none"]))
      twoItems ∧
    ∃ u, other = .ok ⟨⟩ u ∧ u.output.root = "none" := by
  intro t body loop other
  have hindex : Table.get? "index" indexing.functions = some Function.index.function := rfl
  have hitems : (Scopes.dot twoItems.scopes).fields ["items"] =
      .ok (.list [.int 1, .text "b"]) := rfl
  have htrue : ∀ v ∈ [Value.int 1, .text "b"], v.isTrue = true := by
    simp [Value.isTrue, Value.text]
  have h := range_unrolled indexing 1 t hindex hitems htrue body 1 (· + 3)
  have hother := (h.2 1 { commands := [[.field ["missing"]]] } body [.text "none"] twoItems _
    .undefined rfl).1 (.inl rfl)
  exact ⟨h.1, ⟨_, rfl, rfl⟩, hother, ⟨_, rfl, rfl⟩⟩

end Eval

end Stencil
