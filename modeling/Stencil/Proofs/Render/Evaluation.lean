import Stencil.Proofs.Render.Keeps
import Stencil.Proofs.Template.Sites
import Stencil.Render.Eval

/-!
# Invariants of evaluation

An invariant of the state passes from the calls of a template to its pipelines, and from these to its
nodes. This is one induction over the template, whatever the invariant is about.

* `Eval.Invariant I V W` says that `I` survives what nodes do to the scopes and the output, with
  values that have `V` and texts that have `W`.
* `Eval.Fits` is what is asked of a leaf of a pipeline: a call keeps the invariant, a constant has `V`.
* `Eval.loop_eq` says that a loop has one pass for each element, so that nothing has to be said of the
  passes over numbers.
* `Eval.keeps_pipeline` and `Eval.keeps_nodes` conclude that pipelines and nodes keep the invariant.
-/

namespace Stencil.Eval

open Render Run

/-- The invariant `I` survives what the nodes of a template do by themselves, as long as the values
have `V` and the texts have `W`. -/
structure Invariant (I : State → Prop) (V : Value → Prop) (W : String → Prop) : Prop where
  undefined : V .undefined
  dot : ∀ s, I s → V (Scopes.dot s.scopes)
  lookup : ∀ s name v, I s → Scopes.lookup? name s.scopes = some v → V v
  field : ∀ v name w, V v → v.field name = .ok w → V w
  pairs : ∀ v ps, V v → v.pairs = .ok ps → ∀ p ∈ ps.toList, V p.1 ∧ V p.2
  write : ∀ s text, I s → W text → I { s with output := s.output.write text }
  declare : ∀ s name v, I s → V v → I { s with scopes := Scopes.declare name v s.scopes }
  assign : ∀ s name v scopes, I s → V v → Scopes.assign? name v s.scopes = some scopes →
    I { s with scopes }
  push : ∀ s v, I s → V v → I { s with scopes := Scopes.push v s.scopes }
  pop : ∀ s, I s → I { s with scopes := s.scopes.tail }

variable {I : State → Prop} {V : Value → Prop} {W : String → Prop} {e : Environment} {run : Runner}

/-- What is asked of a leaf of a pipeline in a context. -/
def Fits (I : State → Prop) (V : Value → Prop) (e : Environment) (run : Runner)
    (context : HtmlContext) : Expr → Prop
  | .call name => ∀ args, (∀ v ∈ args, V v) → Keeps I (call e run context name args) V
  | .const v => V v
  | _ => True

namespace Invariant

/-! ## Scopes and output -/

theorem fields (h : Invariant I V W) (names : List String) :
    ∀ v w, V v → v.fields names = .ok w → V w := by
  induction names with
  | nil =>
    intro v w hv he
    cases he
    exact hv
  | cons name names ih =>
    intro v w hv he
    cases hf : v.field name with
    | ok u =>
      simp only [Value.fields, hf] at he
      exact ih u w (h.field v name u hv hf) he
    | error c => simp [Value.fields, hf, Bind.bind, Except.bind] at he

theorem keeps_write (h : Invariant I V W) {text : String} (ht : W text) :
    Keeps I (Run.write text) fun _ => True :=
  .modifyState fun s hs => h.write s text hs ht

theorem keeps_declare (h : Invariant I V W) (name : String) {v : Value} (hv : V v) :
    Keeps I (Eval.declare name v) fun _ => True :=
  .modifyState fun s hs => h.declare s name v hs hv

theorem keeps_assign (h : Invariant I V W) (name : String) {v : Value} (hv : V v) :
    Keeps I (Eval.assign name v) fun _ => True := by
  refine .getState fun s hs => ?_
  cases ha : Scopes.assign? name v s.scopes with
  | some scopes => exact .setState (h.assign s name v scopes hs hv ha)
  | none => exact .fail _

theorem keeps_bind (h : Invariant I V W) (assigns : Bool) {v : Value} (hv : V v)
    (names : List String) : Keeps I (Eval.bind assigns v names) fun _ => True := by
  induction names with
  | nil => exact .pure trivial
  | cons name names ih =>
    cases assigns with
    | false => exact .seq (h.keeps_declare name hv) fun _ => ih
    | true => exact .seq (h.keeps_assign name hv) fun _ => ih

/-- A scope that is opened with a value closes behind any computation that keeps the invariant. -/
theorem keeps_push (h : Invariant I V W) {α : Type} {Q : α → Prop} {act : Run α} {v : Value}
    (hv : V v) (hact : Keeps I act Q) : Keeps I (Run.inScope (Scopes.push v) act) Q :=
  .guarded (fun s hs => h.push s v hs hv) (fun _ t _ ht => h.pop t ht) hact

theorem keeps_pushSame (h : Invariant I V W) {α : Type} {Q : α → Prop} {act : Run α}
    (hact : Keeps I act Q) : Keeps I (Run.inScope Scopes.pushSame act) Q :=
  .guarded (fun s hs => h.push s _ hs (h.dot s hs)) (fun _ t _ ht => h.pop t ht) hact

end Invariant

/-! ## Pipelines -/

/-- An operand that calls no function gives its value, unless a value is piped into it. -/
theorem command_single {x : Expr} (hx : ∀ name, x ≠ .call name) {context : HtmlContext}
    (last : Option Value) : command e run context last [x] =
      if last.isNone then operand e run context x else Run.fail .argumentToValue := by
  rw [command]
  exact hx

theorem command_many {x : Expr} (hx : ∀ name, x ≠ .call name) {context : HtmlContext}
    (last : Option Value) (y : Expr) (ys : List Expr) :
    command e run context last (x :: y :: ys) = Run.fail .argumentToValue := by
  rw [command]
  · exact fun name xs h => hx name (List.cons.inj h).1
  · exact fun z h => nomatch (List.cons.inj h).2
  · exact fun h => nomatch h

mutual

theorem keeps_operand (h : Invariant I V W) {context : HtmlContext} :
    ∀ x : Expr, (∀ l ∈ x.leaves, Fits I V e run context l) → Keeps I (operand e run context x) V
  | .dot, _ => .getState fun s hs => .pure (h.dot s hs)
  | .field names, _ => .getState fun s hs => .lift fun w hw => h.fields names _ w (h.dot s hs) hw
  | .variable name fields, _ => by
    refine .bind (Q := V) (.getState fun s hs => ?_) fun v hv => .lift fun w hw =>
      h.fields fields v w hv hw
    cases hl : Scopes.lookup? name s.scopes with
    | some v => exact .pure (h.lookup s name v hs hl)
    | none => exact .fail _
  | .call name, hx => hx (.call name) (by simp [Expr.leaves]) [] (by simp)
  | .const v, hx => .pure (hx (.const v) (by simp [Expr.leaves]))
  | .group ⟨_, _, cs⟩ fields, hx =>
    .bind (keeps_commands h cs none (by simp) hx) fun v hv => .lift fun w hw =>
      h.fields fields v w hv hw

theorem keeps_operands (h : Invariant I V W) {context : HtmlContext} :
    ∀ xs : List Expr, (∀ l ∈ Expr.leavesOfOperands xs, Fits I V e run context l) →
      Keeps I (operands e run context xs) fun vs => ∀ v ∈ vs, V v
  | [], _ => .pure (by simp)
  | x :: xs, hx => by
    refine .bind (keeps_operand h x fun l hl => hx l (by simp [Expr.leavesOfOperands, hl]))
      fun v hv => ?_
    refine .bind (keeps_operands h xs fun l hl => hx l (by simp [Expr.leavesOfOperands, hl]))
      fun vs hvs => .pure ?_
    simpa using ⟨hv, hvs⟩

theorem keeps_command (h : Invariant I V W) {context : HtmlContext} :
    ∀ (c : List Expr) (last : Option Value), (∀ v ∈ last, V v) →
      (∀ l ∈ Expr.leavesOfOperands c, Fits I V e run context l) →
      Keeps I (command e run context last c) V
  | [], _, _, _ => .fail _
  | x :: xs, last, hlast, hx => by
    by_cases hcall : ∃ name, x = .call name
    · obtain ⟨name, rfl⟩ := hcall
      refine .bind (keeps_operands h xs fun l hl => hx l (by simp [Expr.leavesOfOperands, hl]))
        fun args hargs => ?_
      refine hx (.call name) (by simp [Expr.leavesOfOperands, Expr.leaves]) _ fun v hv => ?_
      rcases List.mem_append.1 hv with hv | hv
      · exact hargs v hv
      · exact hlast v (by simpa using hv)
    · have hx' : ∀ name, x ≠ .call name := fun name hn => hcall ⟨name, hn⟩
      cases xs with
      | nil =>
        rw [command_single hx']
        split
        · exact keeps_operand h x fun l hl => hx l (by simp [Expr.leavesOfOperands, hl])
        · exact .fail _
      | cons y ys =>
        rw [command_many hx']
        exact .fail _

theorem keeps_commands (h : Invariant I V W) {context : HtmlContext} :
    ∀ (cs : List (List Expr)) (last : Option Value), (∀ v ∈ last, V v) →
      (∀ l ∈ Expr.leavesOfCommands cs, Fits I V e run context l) →
      Keeps I (commands e run context last cs) V
  | [], last, hlast, _ => by
    refine .pure ?_
    cases last with
    | none => exact h.undefined
    | some v => exact hlast v rfl
  | c :: cs, last, hlast, hx => by
    refine .bind (keeps_command h c last hlast fun l hl => hx l (by simp [Expr.leavesOfCommands, hl]))
      fun v hv => ?_
    exact keeps_commands h cs (some v) (by simpa using hv) fun l hl =>
      hx l (by simp [Expr.leavesOfCommands, hl])

end

theorem keeps_pipeline (h : Invariant I V W) {context : HtmlContext} (p : Pipeline)
    (hp : ∀ l ∈ p.leaves, Fits I V e run context l) : Keeps I (pipeline e run context p) V :=
  (keeps_commands h p.commands none (by simp) hp).bind fun v hv =>
    .seq (h.keeps_bind p.assigns hv p.targets) fun _ => .pure hv

/-! ## Loops -/

theorem keeps_bindPair (h : Invariant I V W) {key item : Value} (hkey : V key) (hitem : V item)
    (targets : List String) : Keeps I (bindPair key item targets) fun _ => True := by
  match targets with
  | [] => exact .pure trivial
  | [x] => exact h.keeps_declare x hitem
  | [k, x] => exact .seq (h.keeps_declare k hkey) fun _ => h.keeps_declare x hitem
  | _ :: _ :: _ :: _ => exact .pure trivial

section Loop

variable {body otherwise : Run PUnit} (targets : List String)

theorem passesFrom_eq (i n : Nat) : passesFrom targets body i n =
    passes targets body ((List.range' i n).map fun j : Nat => (.int j, .int j)) := by
  induction n generalizing i with
  | zero => rfl
  | succ n ih =>
    rw [passesFrom, ih, List.range'_succ, List.map_cons, passes]

/-- **A loop has one pass for each element.** -/
theorem loop_eq (ps : Value.Pairs) : loop targets body otherwise ps =
    if ps.toList = [] then otherwise else passes targets body ps.toList := by
  match ps with
  | .listed [] => rfl
  | .below 0 => rfl
  | .listed (p :: ps) => rfl
  | .below (n + 1) =>
    have hne : (Value.Pairs.below (n + 1)).toList ≠ [] := by simp [Value.Pairs.toList]
    rw [if_neg hne, Value.Pairs.toList, List.range_eq_range']
    exact passesFrom_eq targets 0 (n + 1)

theorem keeps_pass (h : Invariant I V W) (hbody : Keeps I body fun _ => True) {key item : Value}
    (hkey : V key) (hitem : V item) : Keeps I (pass targets key item body) fun _ => True :=
  h.keeps_push hitem <| .seq (keeps_bindPair h hkey hitem targets) fun _ => hbody

theorem keeps_passes (h : Invariant I V W) (hbody : Keeps I body fun _ => True)
    (ps : List (Value × Value)) (hps : ∀ p ∈ ps, V p.1 ∧ V p.2) :
    Keeps I (passes targets body ps) fun _ => True := by
  induction ps with
  | nil => exact .pure trivial
  | cons p ps ih =>
    obtain ⟨hkey, hitem⟩ := hps p (by simp)
    exact .seq (keeps_pass targets h hbody hkey hitem) fun _ => ih fun q hq => hps q (by simp [hq])

theorem keeps_loop (h : Invariant I V W) (hbody : Keeps I body fun _ => True)
    (hother : Keeps I otherwise fun _ => True) (ps : Value.Pairs)
    (hps : ∀ p ∈ ps.toList, V p.1 ∧ V p.2) :
    Keeps I (loop targets body otherwise ps) fun _ => True := by
  rw [loop_eq]
  split
  · exact hother
  · exact keeps_passes targets h hbody ps.toList hps

end Loop

/-! ## Nodes -/

/-- What is asked of a template apart from its texts and pipelines: what it writes of a value with
`V` has `W`, and so does what the templates that it runs write. -/
structure Hosts (I : State → Prop) (V : Value → Prop) (W : String → Prop) (run : Runner)
    (t : Template) : Prop where
  written : ∀ v context, V v → W (v.written t.escape context)
  run : ∀ name dot, V dot → Keeps I (run name dot) W

/-- The pipelines at some sites fit. -/
def SitesFit (I : State → Prop) (V : Value → Prop) (e : Environment) (run : Runner)
    (sites : List (HtmlContext × Pipeline)) : Prop :=
  ∀ site ∈ sites, ∀ l ∈ site.2.leaves, Fits I V e run site.1 l

theorem SitesFit.append {l₁ l₂ : List (HtmlContext × Pipeline)}
    (h : SitesFit I V e run (l₁ ++ l₂)) : SitesFit I V e run l₁ ∧ SitesFit I V e run l₂ :=
  List.forall_mem_append.1 h

theorem SitesFit.cons {site : HtmlContext × Pipeline} {l : List (HtmlContext × Pipeline)}
    (h : SitesFit I V e run (site :: l)) :
    (∀ x ∈ site.2.leaves, Fits I V e run site.1 x) ∧ SitesFit I V e run l :=
  List.forall_mem_cons.1 h

/-- The subject of a branch, and then one of two lists of nodes, each in a scope of its own. -/
theorem keeps_branch (h : Invariant I V W) {t : Template} {line : Nat} {p : Pipeline}
    (hp : ∀ l ∈ p.leaves, Fits I V e run .body l) {k : Value → Run PUnit}
    (hk : ∀ v, V v → Keeps I (k v) fun _ => True) :
    Keeps I (Run.inScope Scopes.pushSame do
      let v ← Run.located t.name line (pipeline e run .body p)
      k v) fun _ => True :=
  h.keeps_pushSame <| ((keeps_pipeline h p hp).located t.name line).bind hk

mutual

theorem keeps_node (h : Invariant I V W) {t : Template} (ht : Hosts I V W run t) :
    ∀ n : Node, (∀ s ∈ n.texts, W s) → SitesFit I V e run n.sites →
      Keeps I (node e run t n) fun _ => True
  | .text s, hw, _ => h.keeps_write (hw s (by simp [Node.texts]))
  | .action line context p, _, hs => by
    refine ((keeps_pipeline h p hs.cons.1).located t.name line).bind fun v hv => ?_
    split
    · exact h.keeps_write (ht.written v context hv)
    · exact .pure trivial
  | .cond line negated p body otherwise, hw, hs => by
    simp only [Node.texts, List.mem_append, Node.sites] at hw hs
    obtain ⟨hp, hs⟩ := hs.cons
    refine keeps_branch h hp fun v _ => ?_
    split
    · exact h.keeps_pushSame (keeps_nodes h ht body (fun s hm => hw s (.inl hm)) hs.append.1)
    · exact h.keeps_pushSame (keeps_nodes h ht otherwise (fun s hm => hw s (.inr hm)) hs.append.2)
  | .range line p body otherwise, hw, hs => by
    simp only [Node.texts, List.mem_append, Node.sites] at hw hs
    obtain ⟨hp, hs⟩ := hs.cons
    have hbody := keeps_nodes h ht body (fun s hm => hw s (.inl hm)) hs.append.1
    have hother := keeps_nodes h ht otherwise (fun s hm => hw s (.inr hm)) hs.append.2
    refine Keeps.located _ _ <| h.keeps_pushSame <|
      (keeps_commands h p.commands none (by simp) hp).bind fun v hv => ?_
    refine (Keeps.lift (Q := fun ps => ∀ p ∈ ps.toList, V p.1 ∧ V p.2)
      fun ps hps => h.pairs v ps hv hps).bind fun ps hps => ?_
    exact keeps_loop p.targets h hbody (h.keeps_pushSame hother) ps hps
  | .scope line p body otherwise, hw, hs => by
    simp only [Node.texts, List.mem_append, Node.sites] at hw hs
    obtain ⟨hp, hs⟩ := hs.cons
    refine keeps_branch h hp fun v hv => ?_
    split
    · exact h.keeps_push hv (keeps_nodes h ht body (fun s hm => hw s (.inl hm)) hs.append.1)
    · exact h.keeps_pushSame (keeps_nodes h ht otherwise (fun s hm => hw s (.inr hm)) hs.append.2)
  | .template line name none, _, _ =>
    .bind (.pure (Q := V) h.undefined) fun dot hdot =>
      ((ht.run name dot hdot).located t.name line).bind fun _ htext => h.keeps_write htext
  | .template line name (some p), _, hs =>
    ((keeps_pipeline h p (hs (.body, p) (by simp [Node.sites]))).located t.name line).bind
      fun dot hdot => ((ht.run name dot hdot).located t.name line).bind fun _ htext =>
        h.keeps_write htext

theorem keeps_nodes (h : Invariant I V W) {t : Template} (ht : Hosts I V W run t) :
    ∀ ns : List Node, (∀ s ∈ Node.textsOf ns, W s) → SitesFit I V e run (Node.sitesOf ns) →
      Keeps I (nodes e run t ns) fun _ => True
  | [], _, _ => .pure trivial
  | n :: ns, hw, hs => by
    simp only [Node.textsOf, List.mem_append, Node.sitesOf] at hw hs
    exact .seq (keeps_node h ht n (fun s hm => hw s (.inl hm)) hs.append.1) fun _ =>
      keeps_nodes h ht ns (fun s hm => hw s (.inr hm)) hs.append.2

end

end Stencil.Eval
