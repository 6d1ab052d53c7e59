import Stencil.Proofs.Render.Backtrace

/-!
# Where the fault of a rendering is

A fault gets its place on the way out of what was under way when it arose: from the innermost node, and
from the innermost template if there is no node inside of it. What is around them leaves it alone.

* `Stretch.place` is the place that a stretch gives to what happens inside of it, and `Stretch.innermost`
  the place inside of several stretches.
* `Backtrace.Nested` says how nodes, templates and chains of templates can be inside one another.
* `Backtrace.Fails` says of a computation how its faults fit what is under way; the lemmas follow the ways
  in which computations are put together.
* `Backtrace.fails_nodes` and `Backtrace.fails_runner` are about nodes and templates,
  `Environment.render_underway` is about whole renderings, and `Environment.fault_innermost` concludes
  for those that fail in a node.
-/

namespace Stencil

open Render

/-! ## Stretches inside one another -/

namespace Stretch

/-- The place inside of a stretch, from the one around it. A node is at its line of the template that it
belongs to. -/
def place : Option (String × Nat) → Stretch → Option (String × Nat)
  | _, .template name _ => some (name, 0)
  | p, .node n => p.map fun q => (q.1, n.line)
  | p, .chain _ => p

/-- The place inside of some stretches, of which the outermost comes first. -/
def innermost (p : Option (String × Nat)) (bs : List Stretch) : Option (String × Nat) :=
  bs.foldl place p

theorem innermost_some (q : String × Nat) (bs : List Stretch) :
    ∃ q', innermost (some q) bs = some q' := by
  induction bs generalizing q with
  | nil => exact ⟨q, rfl⟩
  | cons b bs ih => cases b <;> exact ih _

theorem innermost_append (p : Option (String × Nat)) (bs bs' : List Stretch) :
    innermost p (bs ++ bs') = innermost (innermost p bs) bs' := List.foldl_append

theorem innermost_chains (p : Option (String × Nat)) (names : List String) :
    innermost p (names.map .chain) = p := by
  induction names with
  | nil => rfl
  | cons name names ih => exact ih

/-- Inside of nodes of a template it is the innermost node that counts. -/
theorem innermost_nodes (template : String) (line : Nat) (inner : List Node) (n : Node)
    (calls : List String) :
    innermost (some (template, line)) (inner.map .node ++ .node n :: calls.map .chain) =
      some (template, n.line) := by
  induction inner generalizing line with
  | nil => exact innermost_chains _ calls
  | cons m inner ih => exact ih m.line

end Stretch

namespace Backtrace

open Traced History Stretch

variable {α β : Type} {e : Environment}

/-- What can be under way among the nodes `ns`: one of them, inside of it one of its own nodes, and so on,
and inside of the last one a chain of templates with one of its templates, where it is again one of the
nodes. -/
inductive Nested (e : Environment) : List Node → List Stretch → Prop
  | nil {ns : List Node} : Nested e ns []
  | node {ns : List Node} {n : Node} {bs : List Stretch} :
    n ∈ ns → Nested e n.inner bs → Nested e ns (.node n :: bs)
  | chain {ns : List Node} {name : String} : Nested e ns [.chain name]
  | template {ns : List Node} {name key : String} {t : Template} {dot : Value} {bs : List Stretch} :
    e.template key = .ok t → Nested e t.nodes bs →
    Nested e ns (.chain name :: .template t.name dot :: bs)

/-- A node under way is inside of other nodes only, or inside of a template of the environment, where it
is one of its nodes or inside of one of these. -/
theorem Nested.around_node {ns : List Node} {around bs : List Stretch} {n : Node}
    (h : Nested e ns (around ++ .node n :: bs)) :
    (∃ inner : List Node, around = inner.map .node ∧ Nested e ns (inner.map .node ++ .node n :: bs)) ∨
      ∃ outer key t dot, ∃ inner : List Node,
        around = outer ++ .template t.name dot :: inner.map .node ∧ e.template key = .ok t ∧
        Nested e t.nodes (inner.map .node ++ .node n :: bs) := by
  generalize hall : around ++ .node n :: bs = all at h
  induction h generalizing around with
  | nil => simp at hall
  | @node ns m rest hm hrest ih =>
    cases around with
    | nil =>
      cases hall
      exact .inl ⟨[], rfl, .node hm hrest⟩
    | cons b around =>
      rw [List.cons_append, List.cons.injEq] at hall
      obtain ⟨rfl, hall⟩ := hall
      rcases ih hall with ⟨inner, rfl, hinner⟩ | ⟨outer, key, t, dot, inner, rfl, ht, hinner⟩
      · exact .inl ⟨m :: inner, rfl, .node hm hinner⟩
      · exact .inr ⟨.node m :: outer, key, t, dot, inner, rfl, ht, hinner⟩
  | chain =>
    rcases around with - | ⟨b, - | ⟨b', around⟩⟩
    · cases hall
    · cases hall
    · cases hall
  | @template ns chain key t dot rest ht hrest ih =>
    rcases around with - | ⟨b, - | ⟨b', around⟩⟩
    · cases hall
    · cases hall
    · rw [List.cons_append, List.cons_append, List.cons.injEq, List.cons.injEq] at hall
      obtain ⟨rfl, rfl, hall⟩ := hall
      rcases ih hall with ⟨inner, rfl, hinner⟩ | ⟨outer, key', t', dot', inner, rfl, ht', hinner⟩
      · exact .inr ⟨[.chain chain], key, t, dot, inner, rfl, ht, hinner⟩
      · exact .inr ⟨.chain chain :: .template t.name dot :: outer, key', t', dot', inner, rfl, ht', hinner⟩

/-- Where no node is around there is a template around every node. -/
theorem Nested.template_around {around bs : List Stretch} {n : Node}
    (h : Nested e [] (around ++ .node n :: bs)) :
    ∃ outer key t dot, ∃ inner : List Node,
      around = outer ++ .template t.name dot :: inner.map .node ∧ e.template key = .ok t ∧
      Nested e t.nodes (inner.map .node ++ .node n :: bs) := by
  rcases h.around_node with ⟨inner, -, hinner⟩ | h
  · cases inner with
    | nil => cases hinner with | node hn _ => cases hn
    | cons m inner => cases hinner with | node hm _ => cases hm
  · exact h

/-! ## Computations that fail -/

/-- Nothing is under way if the computation succeeds, and what is under way if it fails has `Q`, together
with the fault. -/
def Fails (Q : Fault → List Stretch → Prop) (act : Traced Moment α) : Prop :=
  ∀ s, match act.run s with
    | .ok _ _ => begun (act s).2 = []
    | .error f _ => Q f (begun (act s).2)

theorem begun_append (H H' : List Moment) : begun (H ++ H') = begun H ++ begun H' :=
  List.filterMap_append

namespace Fails

variable {Q Q' : Fault → List Stretch → Prop} {act : Traced Moment α}

theorem error (h : Fails Q act) {s t : State} {f : Fault} (he : act.run s = .error f t) :
    Q f (begun (act s).2) := by
  have hs := h s
  rw [he] at hs
  exact hs

theorem ok (h : Fails Q act) {s t : State} {a : α} (he : act.run s = .ok a t) :
    begun (act s).2 = [] := by
  have hs := h s
  rw [he] at hs
  exact hs

/-- The statement from its two cases. -/
theorem of_cases (hok : ∀ s a t, act.run s = .ok a t → begun (act s).2 = [])
    (herror : ∀ s f t, act.run s = .error f t → Q f (begun (act s).2)) : Fails Q act := by
  intro s
  cases he : act.run s with
  | ok a t => exact hok s a t he
  | error f t => exact herror s f t he

theorem mono (h : Fails Q act) (hQ : ∀ f bs, Q f bs → Q' f bs) : Fails Q' act :=
  .of_cases (fun _ _ _ he => h.ok he) fun _ _ _ he => hQ _ _ (h.error he)

theorem pure (a : α) : Fails Q (Pure.pure a : Traced Moment α) := fun _ => rfl

theorem write (text : String) : Fails Q (Traced.quiet (Run.write text) : Traced Moment PUnit) :=
  fun _ => rfl

theorem bind {k : α → Traced Moment β} (h : Fails Q act) (hk : ∀ a, Fails Q (k a)) :
    Fails Q (act >>= k) := by
  refine .of_cases (fun s b t he => ?_) fun s f t he => ?_
  · rw [run_bind] at he
    obtain ⟨a, u, hact, hnext⟩ := Run.bind_eq_ok he
    rw [trail_bind, hact, begun_append, h.ok hact]
    exact (hk a).ok hnext
  · rw [run_bind] at he
    rw [trail_bind, begun_append]
    rcases Run.bind_eq_error he with hact | ⟨a, u, hact, hnext⟩
    · rw [hact]
      change Q f (begun (act s).2 ++ [])
      rw [List.append_nil]
      exact h.error hact
    · rw [hact, h.ok hact]
      exact (hk a).error hnext

theorem guarded {enter : State → State} {leave : State → State → State} (h : Fails Q act) :
    Fails Q (Traced.guarded enter leave act) := by
  refine .of_cases (fun s a t he => ?_) fun s f t he => ?_
  · obtain ⟨u, hact, -⟩ := Run.guarded_eq_ok he
    exact h.ok hact
  · obtain ⟨u, hact, -⟩ := Run.guarded_eq_error he
    exact h.error hact

/-- A place is given to the fault alone. -/
theorem located {template : String} {line : Nat} (h : Fails Q act)
    (hQ : ∀ f bs, Q f bs → Q' (f.atPlace template line) bs) :
    Fails Q' (Traced.located template line act) := by
  refine .of_cases (fun s a t he => ?_) fun s f t he => ?_
  · exact h.ok (Run.located_eq_ok he)
  · obtain ⟨g, hact, rfl⟩ := Run.located_eq_error he
    exact hQ g _ (h.error hact)

/-- A stretch is under way around what is under way inside of it. -/
theorem during {b : Stretch} (h : Fails Q act) (hQ : ∀ f bs, Q f bs → Q' f (b :: bs)) :
    Fails Q' (during b act) := by
  have hguarded : Fails Q (Traced.guarded b.enter b.leave act) := h.guarded
  refine fun s => ?_
  have hs := hguarded s
  unfold Traced.run Backtrace.during at *
  rcases hact : Traced.guarded b.enter b.leave act s with ⟨_ | _, trail⟩
  · rfl
  · rw [hact] at hs
    exact hQ _ _ hs

section Bare

variable (hQ : ∀ f : Fault, e.Raises f → Q f [])

include hQ

theorem quiet {act : Run α} (h : act.Bare e) : Fails Q (Traced.quiet act) :=
  .of_cases (fun _ _ _ _ => rfl) fun s f t he => hQ f (h s f t he)

theorem noted {d : Deed} {act : Run α} (hd : d.isSingle = true) (h : act.Bare e) :
    Fails Q (note d act) := by
  have hbegun (s : State) : begun (note d act s).2 = [] := by
    cases d with
    | begins b => cases hd
    | _ => rfl
  refine .of_cases (fun s _ _ _ => hbegun s) fun s f t he => ?_
  rw [hbegun]
  exact hQ f (h s f t he)

theorem evaluable {run : Teller} (hrun : ∀ name dot, Fails Q (run name dot)) :
    Evaluable e run fun _ act => Fails Q act where
  ran := hrun
  quiet _ h := quiet hQ h
  bind := bind
  noted hd _ _ h := noted hQ hd h
  inScope _ h := h.guarded

/-- What is looked up is known behind it. -/
theorem lift_bind {o : Outcome α} {k : α → Traced Moment β} (hk : ∀ a, o = .ok a → Fails Q (k a)) :
    Fails Q (Traced.quiet (Run.lift o) >>= k) := by
  cases o with
  | ok a => exact hk a rfl
  | error c => exact fun _ => hQ _ (e.raises_of_cause c)

end Bare

end Fails

/-! ## Faults and what is under way -/

/-- The fault, once it has left the place `p`, is one that arose at the innermost place of what is under
way there, and that is among the nodes `ns`. -/
structure Reaches (e : Environment) (p : Option (String × Nat)) (ns : List Node) (f : Fault)
    (bs : List Stretch) : Prop where
  raised : ∃ g, e.Raises g ∧ f.within p = g.within (innermost p bs)
  nested : Nested e ns bs

/-- The fault has its place already. -/
structure Settled (e : Environment) (q : String × Nat) (ns : List Node) (f : Fault)
    (bs : List Stretch) : Prop where
  raised : ∃ g, e.Raises g ∧ f = g.within (innermost (some q) bs)
  nested : Nested e ns bs

/-- How calls fail: the fault has its place unless it is the place of the call. -/
def Called (e : Environment) (f : Fault) (bs : List Stretch) : Prop := ∀ p ns, Reaches e p ns f bs

/-- How the templates of a chain fail. -/
def Executed (e : Environment) (f : Fault) (bs : List Stretch) : Prop :=
  ∀ p ns name, Reaches e p ns f (.chain name :: bs)

variable {f : Fault} {bs : List Stretch} {ns : List Node}

theorem Reaches.settled {template : String} {line : Nat}
    (h : Reaches e (some (template, line)) ns f bs) :
    Settled e (template, line) ns (f.atPlace template line) bs := ⟨h.raised, h.nested⟩

theorem Settled.reaches {q : String × Nat} (h : Settled e q ns f bs) : Reaches e (some q) ns f bs := by
  obtain ⟨g, hg, rfl⟩ := h.raised
  obtain ⟨q', hq'⟩ := innermost_some q bs
  exact ⟨⟨g, hg, by rw [hq', Fault.within_within]⟩, h.nested⟩

theorem Fails.atLine {act : Traced Moment α} {template : String}
    (h : Fails (fun f bs => ∀ line, Settled e (template, line) ns f bs) act) (line : Nat) :
    Fails (Settled e (template, line) ns) act := h.mono fun _ _ h => h line

theorem reaches_nil (p : Option (String × Nat)) (ns : List Node) (h : e.Raises f) :
    Reaches e p ns f [] := ⟨⟨f, h, rfl⟩, .nil⟩

theorem called_nil (h : e.Raises f) : Called e f [] := fun p ns => reaches_nil p ns h

theorem executed_nil (h : e.Raises f) : Executed e f [] := fun _ _ _ => ⟨⟨f, h, rfl⟩, .chain⟩

/-! ## Nodes -/

section Nodes

variable {run : Teller} (hrun : ∀ name dot, Fails (Called e) (run name dot)) (t : Template)

include hrun

/-- A pipeline gives its place to the faults that have none. -/
theorem fails_pipeline (context : HtmlContext) (line : Nat) (p : Pipeline) (ns : List Node) :
    Fails (Settled e (t.name, line) ns) (located t.name line (pipeline e run context p)) := by
  have hcalls := Fails.evaluable (fun f => called_nil) hrun
  exact Fails.located (hcalls.pipeline context p) fun f bs h => (h _ ns).settled

omit hrun in
/-- A node gives its line to what fails inside of it, so that the line around it does not matter. -/
theorem fails_during {n : Node} {ns : List Node} {act : Traced Moment PUnit} (hn : n ∈ ns)
    (h : Fails (Settled e (t.name, n.line) n.inner) act) :
    Fails (fun f bs => ∀ line, Settled e (t.name, line) ns f bs) (during (.node n) act) :=
  h.during fun _ _ h _ => ⟨h.raised, .node hn h.nested⟩

/-- How a branch fails: in its subject, or in the nodes that follow from its value. -/
theorem fails_branch {line : Nat} {p : Pipeline} {ns : List Node} {k : Value → Traced Moment PUnit}
    (hk : ∀ v, Fails (Settled e (t.name, line) ns) (k v)) :
    Fails (Settled e (t.name, line) ns) (Traced.inScope Scopes.pushSame do
      let v ← located t.name line (pipeline e run .body p)
      k v) :=
  .guarded (.bind (fails_pipeline hrun t .body line p ns) hk)

end Nodes

mutual

theorem fails_node {run : Teller} (hrun : ∀ name dot, Fails (Called e) (run name dot)) (t : Template) :
    ∀ (n : Node) {ns : List Node}, n ∈ ns →
      Fails (fun f bs => ∀ line, Settled e (t.name, line) ns f bs) (node e run t n)
  | .text s, ns, hn => by
    rw [node]
    exact fails_during t hn (.write s)
  | .action line context p, ns, hn => by
    rw [node]
    refine fails_during t hn (.bind (fails_pipeline hrun t context line p _) fun v => ?_)
    split
    · exact .write _
    · exact .pure _
  | .cond line negated p body otherwise, ns, hn => by
    rw [node]
    have hbody := (fails_nodes hrun t body (List.subset_append_left body otherwise)).atLine line
    have hother := (fails_nodes hrun t otherwise (List.subset_append_right body otherwise)).atLine line
    refine fails_during t hn (fails_branch hrun t fun v => ?_)
    split
    · exact .guarded hbody
    · exact .guarded hother
  | .range line p body otherwise, ns, hn => by
    rw [node]
    have hbody := (fails_nodes hrun t body (List.subset_append_left body otherwise)).atLine line
    have hother := (fails_nodes hrun t otherwise (List.subset_append_right body otherwise)).atLine line
    have hinside := Fails.evaluable (Q := Reaches e (some (t.name, line)) (body ++ otherwise))
      (fun f => reaches_nil _ _) fun name dot => (hrun name dot).mono fun f bs h => h _ _
    refine fails_during t hn (Fails.located (hinside.inScope _ ?_) fun f bs h => h.settled)
    refine hinside.bind (hinside.commands .body none p.commands) fun v => hinside.bind (hinside.lift _)
      fun ps => hinside.loop p.targets ?_ (hinside.inScope _ ?_) ps
    · exact hbody.mono fun f bs h => h.reaches
    · exact hother.mono fun f bs h => h.reaches
  | .scope line p body otherwise, ns, hn => by
    rw [node]
    have hbody := (fails_nodes hrun t body (List.subset_append_left body otherwise)).atLine line
    have hother := (fails_nodes hrun t otherwise (List.subset_append_right body otherwise)).atLine line
    refine fails_during t hn (fails_branch hrun t fun v => ?_)
    split
    · exact .guarded hbody
    · exact .guarded hother
  | .template line name p, ns, hn => by
    rw [node]
    have hrest (dot : Value) : Fails (Settled e (t.name, line) []) (do
        let text ← located t.name line (run name dot)
        Traced.quiet (Run.write text)) := by
      exact .bind ((hrun name dot).located fun f bs h => (h _ []).settled) .write
    refine fails_during t hn ?_
    cases p with
    | none => exact .bind (.pure _) hrest
    | some p => exact .bind (fails_pipeline hrun t .body line p []) hrest

/-- **Nodes fail at the innermost of them**, in what is under way inside of it. -/
theorem fails_nodes {run : Teller} (hrun : ∀ name dot, Fails (Called e) (run name dot)) (t : Template) :
    ∀ (ms : List Node) {ns : List Node}, ms ⊆ ns →
      Fails (fun f bs => ∀ line, Settled e (t.name, line) ns f bs) (nodes e run t ms)
  | [], ns, _ => by
    rw [nodes]
    exact .pure _
  | m :: ms, ns, hms => by
    rw [nodes]
    obtain ⟨hm, hms⟩ := List.cons_subset.1 hms
    exact .bind (fails_node hrun t m hm) fun _ => fails_nodes hrun t ms hms

end

/-! ## Templates that run one another -/

theorem fails_execute {run : Teller} (hrun : ∀ name dot, Fails (Called e) (run name dot))
    (name : String) (dot : Value) : Fails (Executed e) (execute e run name dot) := by
  refine .lift_bind (fun f => executed_nil) fun t ht => ?_
  refine .bind (.quiet (fun f => executed_nil) .get) fun s => ?_
  split
  · exact .quiet (fun f => executed_nil) (.fail _)
  · have hinside : Fails (Reaches e (some (t.name, 0)) t.nodes) (do
        nodes e run t t.nodes
        Traced.quiet finished) := by
      have hnodes := (fails_nodes hrun t t.nodes (List.Subset.refl _)).atLine 0
      refine .bind (hnodes.mono fun f bs h => h.reaches) fun _ => ?_
      exact .quiet (fun f => reaches_nil _ _) bare_finished
    have hstretch : Fails (fun f bs => Executed e (f.atPlace t.name 0) bs)
        (during (.template t.name dot) (do
          nodes e run t t.nodes
          Traced.quiet finished)) := by
      refine hinside.during fun f bs h p ns chain => ?_
      obtain ⟨g, hg, hfault⟩ := h.raised
      obtain ⟨q, hq⟩ := innermost_some (t.name, 0) bs
      refine ⟨⟨g, hg, ?_⟩, .template ht h.nested⟩
      change (f.within (some (t.name, 0))).within p = g.within (innermost (some (t.name, 0)) bs)
      rw [hfault, hq, Fault.within_within]
    exact hstretch.located fun f bs h => h

theorem fails_followParents {exec : Teller} (hexec : ∀ name dot, Fails (Executed e) (exec name dot))
    (name : String) (n : Nat) :
    ∀ output, Fails (Executed e) (followParents exec name n output) := by
  have hquiet {α : Type} {act : Run α} (h : act.Bare e) : Fails (Executed e) (Traced.quiet act) :=
    .quiet (fun f => executed_nil) h
  have htake : Fails (Executed e) (note .takes takeParent) :=
    .noted (fun f => executed_nil) rfl fun _ _ _ h => nomatch h
  induction n with
  | zero =>
    refine fun output => htake.bind fun parent => ?_
    cases parent with
    | none => exact .pure _
    | some _ => exact hquiet (.fail _)
  | succ n ih =>
    refine fun output => htake.bind fun parent => ?_
    cases parent with
    | none => exact .pure _
    | some parent =>
      exact (hquiet (.modify _)).bind fun _ => (hquiet .get).bind fun s => (hexec parent s.root).bind ih

/-- **A template fails where the innermost node fails**, or where it is called if none has begun. -/
theorem fails_runner (room : Nat) (name : String) (dot : Value) :
    Fails (Called e) (runner e room name dot) := by
  induction room generalizing name dot with
  | zero => exact .quiet (fun f => called_nil) (.fail _)
  | succ room ih =>
    have hexec := fails_execute ih
    have hchain : Fails (Executed e) (do
        let output ← execute e (runner e room) name dot
        followParents (execute e (runner e room)) name maxParents output) :=
      (hexec name dot).bind (fails_followParents hexec name maxParents)
    exact hchain.during fun f bs h p ns => h p ns name

theorem fails_renderMain : Fails (Called e) (renderMain e) := by
  have hquiet {α : Type} {act : Run α} (h : act.Bare e) : Fails (Called e) (Traced.quiet act) :=
    .quiet (fun f => called_nil) h
  refine (hquiet .get).bind fun s => ?_
  split
  · exact hquiet (.fail _)
  · refine (hquiet (.modify _)).bind fun _ => ?_
    split
    · exact fails_runner _ _ _
    · refine (fails_runner _ _ _).bind fun content => (hquiet (.modify _)).bind fun _ => ?_
      exact fails_runner _ _ _

end Backtrace

namespace Environment

open Backtrace

variable {e : Environment} {c : RenderContext} {f : Fault}

/-- Nothing is under way behind a rendering that succeeds. A fault has left the innermost place of what
is under way, if that is a place. -/
theorem render_underway (e : Environment) (c : RenderContext) :
    match (e.render c).1 with
    | .ok _ => e.underway c = []
    | .error f => (∃ g, e.Raises g ∧ f = g.within (Stretch.innermost none (e.underway c))) ∧
      Nested e [] (e.underway c) := by
  have h := fails_renderMain (e := e) { context := c }
  rw [run_renderMain] at h
  unfold render EStateM.run
  cases hrun : Render.renderMain e { context := c } with
  | ok text t =>
    rw [hrun] at h
    exact h
  | error f t =>
    rw [hrun] at h
    obtain ⟨hraised, hnested⟩ := h none []
    exact ⟨hraised, hnested⟩

/-- **A fault is at the innermost node that is under way**: it has the line of this node and the name of
the template that the node belongs to, whatever is around the two. Inside of the node there may be calls
of templates, if none of these has begun to run. Only a function that fails with a fault which has a place
already can make a difference, and that place is kept. -/
theorem fault_innermost {around : List Stretch} {n : Node} {calls : List String}
    (h : (e.render c).1 = .error f) (hunder : e.underway c = around ++ .node n :: calls.map .chain) :
    ∃ outer key t dot, ∃ inner : List Node,
      around = outer ++ .template t.name dot :: inner.map .node ∧ e.template key = .ok t ∧
      Nested e t.nodes (inner.map .node ++ .node n :: calls.map .chain) ∧
      (∃ g, e.Raises g ∧ f = g.atPlace t.name n.line) ∧
      (e.Placeless → f.template = some t.name ∧ f.line = n.line) := by
  have hall := e.render_underway c
  rw [h] at hall
  obtain ⟨⟨g, hg, hfault⟩, hnested⟩ := hall
  rw [hunder] at hfault hnested
  obtain ⟨outer, key, t, dot, inner, rfl, ht, hinner⟩ := hnested.template_around
  have hplace : f = g.within (some (t.name, n.line)) := by
    rw [← Stretch.innermost_nodes t.name 0 inner n calls]
    rw [List.append_assoc, List.cons_append, Stretch.innermost_append] at hfault
    exact hfault
  refine ⟨outer, key, t, dot, inner, rfl, ht, hinner, ⟨g, hg, hplace⟩, fun he => ?_⟩
  have hat : f.IsAt (some (t.name, n.line)) := hplace ▸ (he.isAt hg).within
  exact ⟨hat.template, hat.line⟩

/-- A call of an unknown function. -/
def badCall : Node := .action 7 .body { commands := [[.call "missing"]] }

/-- A branch around the call. -/
def badBranch : Node := .scope 6 { commands := [[.const (.int 1)]] } [.text "x", badCall] []

/-- A call of a part. -/
def partCall : Node := .action 4 .body { commands := [[.call "exec", .const (.text "part")]] }

/-- A branch around the call of the part. -/
def partBranch : Node := .cond 3 false { commands := [[.dot]] } [partCall] []

/-- A loop around the branch. -/
def partLoop : Node := .range 2 { commands := [[.dot]] } [partBranch] []

/-- A page that calls a part in a branch of a loop; the part extends a base with the bad call. -/
def brokenBase : Environment where
  functions := Function.standard
  templates := [
    ("base", { name := "base", nodes := [badBranch] }),
    ("page", { name := "page", nodes := [partLoop] }),
    ("part", { name := "part", nodes := [
      .action 1 .body { commands := [[.call "extends", .const (.text "base")]] }] })]

/-- The page for two items, of which the branch skips the first one. -/
def brokenContext : RenderContext := { main := some "page", dot := .list [.none, .int 5] }

/-- In the second pass of the loop the call fails inside of three nodes of the page and one of the base,
and the fault is where the call is. -/
theorem fault_innermost_brokenBase :
    ∃ f, (brokenBase.render brokenContext).1 = .error f ∧
      brokenBase.underway brokenContext =
        [.chain "page", .template "page" brokenContext.dot, .node partLoop, .node partBranch,
          .node partCall, .chain "part", .template "base" brokenContext.dot, .node badBranch] ++
        .node badCall :: ([] : List String).map .chain ∧
      brokenBase.Placeless ∧ f.line = badCall.line ∧ f.template = some "base" ∧
      (brokenBase.template "base").map (·.name) = .ok "base" := by
  have hrender : (brokenBase.render brokenContext).1 = .error
    { cause := .unknownFunction "missing", template := some "base", line := 7 } := rfl
  have hunder : brokenBase.underway brokenContext =
    [.chain "page", .template "page" brokenContext.dot, .node partLoop, .node partBranch,
      .node partCall, .chain "part", .template "base" brokenContext.dot, .node badBranch] ++
    .node badCall :: ([] : List String).map .chain := rfl
  have hplaceless : brokenBase.Placeless := placeless_standard rfl
  obtain ⟨_, _, _, _, _, -, -, -, -, hplace⟩ := fault_innermost hrender hunder
  exact ⟨_, hrender, hunder, hplaceless, (hplace hplaceless).2, rfl, rfl⟩

/-- The call of a function that fails with the fault of another source keeps the place of that one. -/
example :
    let e : Environment := {
      functions := [("missing", fun _ => .error { cause := .strayEnd, template := "other", line := 3 })]
      templates := [("page", { name := "page", nodes := [badCall] })] }
    (e.render { main := some "page" }).1 =
      .error { cause := .strayEnd, template := "other", line := 3 } := rfl

end Environment

end Stencil
