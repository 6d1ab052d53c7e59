import Mathlib
import Stencil.Proofs.Pipeline.Parsed
import Stencil.Proofs.Pipeline.RoundTrip
import Stencil.Proofs.Render.Causes

/-!
# Statements and pipelines

Well formed pipelines and statements denote the same: `Pipeline.statements_denote_formed` says that a
well formed pipeline is read back from its text, that what is read from any statement is well formed,
and that the evaluator is never asked for a command without operands.
-/

namespace Stencil

open Render

/-- The pipelines of all templates were read from statements. -/
def Environment.Parsed (e : Environment) : Prop :=
  ∀ name t, e.template name = .ok t → ∀ site ∈ t.sites, ∃ s, parsePipeline s = .ok site.2

namespace Environment

theorem Parsed.formed {e : Environment} (h : e.Parsed) :
    TemplatesFormed Value.isConstant Draft.maxDepth e := by
  intro name t ht site hsite
  obtain ⟨s, hs⟩ := h name t ht site hsite
  exact isFormed_of_parsePipeline hs

end Environment

namespace Pipeline

/-- **Reading undoes writing.** A well formed pipeline whose constants have literals is what its text
denotes. Every statement that can be read denotes a well formed pipeline, in which there are floating
point numbers and all integers of 64 bits besides. So no rendering of templates that were read ends at
a command without operands, unless a function reports one of its own accord. -/
theorem statements_denote_formed :
    (∀ p : Pipeline, p.isFormed Value.isLiteral Draft.maxDepth = true →
      parsePipeline p.text = .ok p) ∧
    (∀ s p, parsePipeline s = .ok p → p.isFormed Value.isConstant Draft.maxDepth = true) ∧
    (∀ (e : Environment) (c : RenderContext) (f : Fault), e.FunctionsSound → e.Parsed →
      (e.render c).1 = .error f → f.cause ≠ .emptyCommand) :=
  ⟨fun _ => parsePipeline_text, fun _ _ => isFormed_of_parsePipeline,
    fun _ c _ he hparsed => Environment.render_cause_ne he hparsed.formed c⟩

/-- Two variables, a text with every escape, groups inside groups with fields behind them. -/
def manyParts : Pipeline where
  targets := ["k", "v"]
  commands := [
    [.call "index", .group { commands := [
        [.group { targets := ["x"], assigns := true, commands := [[.field ["a", "b"]]] } ["c"]],
        [.call "f", .dot]] } [], .const (.text "\"\\\n")],
    [.call "g", .variable "" ["d"], .const (.int (-0x7fffffffffffffff)), .const .none]]

/-- A page that gives an argument to a field. -/
def refusedPage : Environment where
  functions := Function.standard
  templates := [("page", { name := "page", nodes := [
    .action 1 .body { commands := [[.field ["x"], .dot]] }] })]

theorem parsed_refusedPage : refusedPage.Parsed := by
  intro name t ht site hsite
  have hmem := Environment.mem_of_template ht
  obtain ⟨-, rfl⟩ : name = "page" ∧ t = { name := "page", nodes := [.action 1 .body
      { commands := [[.field ["x"], .dot]] }] } := by
    simpa [refusedPage] using hmem
  obtain rfl : site = (.body, { commands := [[.field ["x"], .dot]] }) := by
    simpa [Template.sites, Node.sitesOf, Node.sites] using hsite
  exact ⟨".x .".toList, by cbv⟩

/-- The pipeline is read back, an integer in base sixteen is well formed, and the page fails for another
reason. -/
theorem statements_denote_formed_manyParts :
    parsePipeline manyParts.text = .ok manyParts ∧
      Pipeline.isFormed Value.isConstant Draft.maxDepth
        { commands := [[.const (.int (-0x7fffffffffffffff))]] } = true ∧
      (refusedPage.render { main := some "page" }).1 = .error
        { cause := .argumentToValue, template := some "page", line := 1 } ∧
      Cause.argumentToValue ≠ .emptyCommand := by
  obtain ⟨hwritten, hread, hrendered⟩ := statements_denote_formed
  have hrender : (refusedPage.render { main := some "page" }).1 = .error
      { cause := .argumentToValue, template := some "page", line := 1 } := by cbv
  exact ⟨hwritten manyParts (by decide), hread "-0x7fffffffffffffff".toList _ (by cbv), hrender,
    hrendered refusedPage _ _ Environment.functionsSound_standard parsed_refusedPage hrender⟩

end Pipeline

end Stencil
