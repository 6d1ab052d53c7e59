import Stencil.Environment.Basic
import Stencil.Proofs.Delimited.Merged
import Stencil.Proofs.Outline.Emission

/-!
# The normal form of templates

Whatever a front end writes, texts, padding, tags, interpolations that are kept, and whatever leaves
nothing behind, in a template there is no empty text and no text next to another one. This holds of the
nodes of the template and of every body in it.

* `Outline.normal_of_parse` says so of outlines.
* `FrontEnd.merged_of_parse` says so of the templates of any source.
-/

namespace Stencil

namespace Outline

theorem emits_merges (s : Settings) :
    Emits s s (fun act _ => Build.KeepsMerged act) Normal where
  settings := rfl
  pure _ := .pure trivial
  throw := .throw
  bind h hk := .seq h hk
  text := .text
  action := .action
  interpolation := .interpolation s
  empty := .nil
  nested h hk := .bind (.nested h) hk
  branch n h := .modifyState fun b hb => by
    cases n with
    | cond _ _ _ body otherwise => exact hb.push nofun (merged_of_branch h.1 h.2)
    | range _ _ body otherwise => exact hb.push nofun (merged_of_branch h.1 h.2)
    | scope _ _ body otherwise => exact hb.push nofun (merged_of_branch h.1 h.2)
    | _ => exact h.elim

/-- The template of an outline is in normal form. -/
theorem normal_of_parse {s : Settings} {name source : String} {ts : Table Template}
    (h : (parse s name source).1 = .ok ts) : ∀ e ∈ ts, Normal e.2.nodes := by
  have hmerges : Build.KeepsMerged (compile s source.toList) := (emits_merges s).compile source.toList
  unfold parse EStateM.run at h
  cases hrun : compile s source.toList {} with
  | error f b =>
    rw [hrun] at h
    cases h
  | ok u b =>
    rw [hrun] at h
    cases h
    have hb := (hmerges _ _ _ hrun .nil).2
    exact List.forall_mem_cons.2 ⟨hb.nodes, nofun⟩

end Outline

namespace FrontEnd

/-- **Compiled templates are in normal form.** If a source is compiled, then no list of nodes in any of
its templates, their own and those of all bodies at any depth, holds an empty text or two texts in a
row. -/
theorem merged_of_parse (f : FrontEnd) (s : Settings) (name source : String) {ts : Table Template}
    (h : (f.parse s name source).1 = .ok ts) : ∀ e ∈ ts, ∀ ns ∈ e.2.lists, Merged ns := by
  cases f with
  | outline => exact fun e he => (Outline.normal_of_parse h e he).lists
  | delimited => exact fun e he => (Delimited.normal_of_parse h e he).lists

/-- A source with a definition and comments between texts. -/
def brokenText : String :=
  "a\x7b\x7bdefine \"d\"\x7d\x7db\x7b\x7b/**/\x7d\x7dc\x7b\x7bend\x7d\x7d" ++
    "e\x7b\x7bif .X\x7d\x7df\x7b\x7b/**/\x7d\x7dg\x7b\x7bend\x7d\x7d"

/-- Settings without filters and doctypes. -/
def brokenSettings : Settings := { filters := [], doctypes := [] }

/-- What it is compiled to. -/
def brokenTemplates : Table Template :=
  [("d", { name := "d", nodes := [.text "bc"] }),
    ("t", { name := "t", nodes := [.text "ae",
      .cond 1 false { commands := [[.field ["X"]]] } [.text "fg"] []] })]

theorem merged_of_parse_brokenText :
    (FrontEnd.delimited.parse brokenSettings "t" brokenText).1 = .ok brokenTemplates ∧
      ∀ e ∈ brokenTemplates, ∀ ns ∈ e.2.lists, Merged ns := by
  have h : (FrontEnd.delimited.parse brokenSettings "t" brokenText).1 = .ok brokenTemplates := by cbv
  exact ⟨h, merged_of_parse .delimited brokenSettings "t" brokenText h⟩

end FrontEnd

end Stencil
