import Mathlib
import Stencil.Proofs.Delimited.Recording
import Stencil.Proofs.Render.Trail

/-!
# The context of an executed action

The context that an action holds is found when its source is compiled, once and in document order. In
a source without comments and definitions, where the parts of every branch lead back to the context in
which they start, it is also the context of the texts that are written before the action is run.

* `executed_actions_hold_context` is the statement, for all executions.
-/

namespace Stencil.Delimited

open Node Render

/-- **The recorded context is the context of the execution.** Whatever the environment, the templates
that are run from this one and the data are, each action that is come across holds the context that
the texts before it lead to, in the order of their execution. The execution is that of the nodes,
with its trail. -/
theorem executed_actions_hold_context {s : Settings} {name source : String}
    {templates : Table Template} {t : Template} (hsource : Undivided s.delimiters source.toList)
    (hparse : (parse s name source).1 = .ok templates) (ht : Table.get? name templates = some t)
    (hsettled : SettledAll .body t.nodes) (e : Environment) (run : Runner) (escape : AutoEscape)
    (start : State) :
    (Trail.nodes e run { t with escape } t.nodes).run start =
      Eval.nodes e run { t with escape } t.nodes start ∧
    HtmlContext.body.Agrees (Trail.nodes e run { t with escape } t.nodes start).2 := by
  refine ⟨congrFun (Trail.run_nodes e run _ t.nodes) start, ?_⟩
  obtain ⟨nodes, rfl, hrecorded⟩ := parse_recorded hsource hparse
  have hnodes : t.nodes = nodes := by
    have heq : some { name, nodes } = some t := by simpa [Table.get?] using ht
    rw [← Option.some.inj heq]
  rw [hnodes] at hsettled ⊢
  exact (Trail.tracks_nodes e run _ nodes hrecorded hsettled start).1

/-! ## A loop in a script -/

/-- The template of `<script>{{range .}}a{{end}}{{.}}`. -/
def loopInScript : Template where
  name := "page"
  nodes := [
    .text "<script>",
    .range 1 { commands := [[.dot]] } [.text "a"] [],
    .action 1 .script { commands := [[.dot]] }]

theorem undivided_loopInScript :
    Undivided Settings.standard.delimiters "<script>{{range .}}a{{end}}{{.}}".toList := by
  have hstatements : Segment.statements Settings.standard.delimiters
      "<script>{{range .}}a{{end}}{{.}}".toList = ["range .".toList, "end".toList, ".".toList] := by
    cbv
  unfold Undivided
  rw [hstatements]
  simp only [List.forall_mem_cons, List.not_mem_nil, false_implies, implies_true, and_true]
  refine ⟨⟨rfl, ?_⟩, ⟨rfl, ?_⟩, rfl, ?_⟩
  all_goals
    intro name heq
    cases heq

theorem parse_loopInScript :
    (parse .standard "page" "<script>{{range .}}a{{end}}{{.}}").1 =
      .ok [("page", loopInScript)] := by
  have hsegments : Segment.ofSource Settings.standard.delimiters
      "<script>{{range .}}a{{end}}{{.}}".toList =
        .ok [.text "<script>".toList, .action "range .".toList 1, .text "a".toList,
          .action "end".toList 1, .action ".".toList 1] := by
    cbv
  have hrange : Keyword.of "range .".toList = .branch .range ".".toList := rfl
  have hend : Keyword.of "end".toList = .finish := rfl
  have hdot : Keyword.of ".".toList = .action := rfl
  have hpipeline : parsePipeline ".".toList = .ok { commands := [[.dot]] } := by cbv
  have hcall : parseTemplateCall ".".toList = .ok none := by cbv
  have hnode : ∀ context, Build.actionNode context ".".toList 1 =
      .ok (.action 1 context { commands := [[.dot]] }) := by
    intro context
    unfold Build.actionNode
    rw [hcall, hpipeline]
    rfl
  unfold parse compileSource
  rw [hsegments]
  simp only [compile, hrange, hend, hdot, Build.pipeline, hpipeline, Build.action, hnode]
  rfl

/-- Two passes of a loop before the action. -/
theorem executed_actions_hold_context_loopInScript :
    Undivided Settings.standard.delimiters "<script>{{range .}}a{{end}}{{.}}".toList ∧
    (parse .standard "page" "<script>{{range .}}a{{end}}{{.}}").1 = .ok [("page", loopInScript)] ∧
    Table.get? "page" [("page", loopInScript)] = some loopInScript ∧
    SettledAll .body loopInScript.nodes ∧
    (Trail.nodes .standard (fun _ _ => Run.fail .recursionLimit) loopInScript loopInScript.nodes
        { context := {}, scopes := Scopes.start (.list [.int 1, .int 2]) }).2 =
      [.text "<script>", .text "a", .text "a"] ++
        .action 1 .script { commands := [[.dot]] } :: [] ∧
    HtmlContext.script = HtmlContext.body.along [.text "<script>", .text "a", .text "a"] := by
  have hsettled : SettledAll .body loopInScript.nodes :=
    ⟨trivial, ⟨⟨rfl, trivial, trivial⟩, rfl, trivial⟩, trivial, trivial⟩
  have htrail : (Trail.nodes .standard (fun _ _ => Run.fail .recursionLimit) loopInScript
      loopInScript.nodes { context := {}, scopes := Scopes.start (.list [.int 1, .int 2]) }).2 =
        [.text "<script>", .text "a", .text "a"] ++
          .action 1 .script { commands := [[.dot]] } :: [] := rfl
  refine ⟨undivided_loopInScript, parse_loopInScript, rfl, hsettled, htrail, ?_⟩
  have h := executed_actions_hold_context undivided_loopInScript parse_loopInScript rfl hsettled
    .standard (fun _ _ => Run.fail .recursionLimit) .off
    { context := {}, scopes := Scopes.start (.list [.int 1, .int 2]) }
  exact h.2 _ _ _ _ _ htrail

end Stencil.Delimited
