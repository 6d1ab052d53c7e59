import Stencil.Proofs.Escape.Entities
import Stencil.Proofs.Html.Marker

/-!
# Escaped output stays in its context

What an escaping template writes of a value that is not safe text, with or without safe text in its items
and entries.

* `HtmlContext.Confines` says which texts can neither leave a context nor be read as markup in it.
* `Value.confined_escaped` says that escaped values are such texts, context by context.
* `Value.written_confined` is the conclusion, with the context that lasts over what is written.
-/

namespace Stencil

open Text

namespace HtmlContext

/-- The texts that cannot leave a context. -/
def Confines : HtmlContext → String → Prop
  | .body, s => Each (· ∉ ['<', '>', '"', '\'', '/']) s ∧ Escape.Marked s
  | .script, s => Each (· ∉ ['<', '>', '&', '\'']) s
  | .style, s => Each (fun c => c.isAlphanum = true ∨ c ∈ " #%-.,_+".toList) s

end HtmlContext

namespace Value

/-- The texts that need no escaping hold none of the characters of markup. -/
theorem plain_confined {v : Value} (hv : v.kind.isPlainInBody = true) :
    Each (fun c => c.isAlphanum = true ∨ c ∈ ['-', '+', '.']) v.display :=
  each_display_of_isPlainInBody (fun _ => .inl) (fun _ => .inr) hv

/-- The characters of numbers and words are none of markup. -/
theorem not_mem_markup {c : Char} (hc : c.isAlphanum = true ∨ c ∈ ['-', '+', '.']) :
    c ∉ ['<', '>', '"', '\'', '/', '&'] := by
  intro hmem
  revert hc
  simp only [List.mem_cons, List.not_mem_nil, or_false] at hmem
  rcases hmem with rfl | rfl | rfl | rfl | rfl | rfl <;> decide

/-- **Escaped values stay in their context.** -/
theorem confined_escaped (v : Value) (context : HtmlContext) : context.Confines (v.escaped context) := by
  cases context with
  | body =>
    simp only [escaped]
    split
    · next hplain =>
      refine ⟨fun c hc hmem => ?_, fun u hu => ?_⟩
      · exact not_mem_markup (plain_confined hplain c hc) (List.mem_append_left ['&'] hmem)
      · have hamp := plain_confined hplain '&' (hu.subset List.mem_cons_self)
        exact absurd (List.mem_append_right ['<', '>', '"', '\'', '/'] List.mem_cons_self)
          (not_mem_markup hamp)
    · exact ⟨Escape.each_html _, Escape.marked_html _⟩
  | script => exact Escape.each_script _
  | style =>
    simp only [escaped]
    split
    · next hplain =>
      have hsigns : ['-', '+', '.'] ⊆ " #%-.,_+".toList := by decide
      exact fun c hc =>
        (plain_confined (isPlainInBody_of_isPlainInStyle hplain) c hc).imp_right fun h => hsigns h
    · intro c hc
      have hsafe := Escape.each_style v.display c hc
      simp only [Escape.isStyleSafe, Bool.or_eq_true, decide_eq_true_eq, or_assoc] at hsafe
      refine hsafe.imp_right ?_
      rintro (rfl | rfl | rfl | rfl | rfl | rfl | rfl) <;> decide

/-- **What an action writes stays in its context.** What an escaping template writes of a value that is
not safe text cannot leave the context that it is written for, and the context that a text is in, whatever
it is, lasts over it. -/
theorem written_confined (v : Value) (hv : v.isSafe = false) (context : HtmlContext) :
    context.Confines (v.written .html context) ∧
    ∀ c : HtmlContext, c.feed (v.written .html context).toList = c := by
  refine ⟨?_, fun c => HtmlContext.feed_of_not_mem (fun h => each_written hv context '<' h rfl) c⟩
  simp only [written, hv, Bool.false_eq_true, if_false]
  exact confined_escaped v context

/-- Safe text inside of a list, a fallback and what is missing. -/
theorem written_confined_nested :
    let v := Value.list [.safeText "<i>", .fallback "a&b", .undefined, .map [("k'", .safeText "</script>")]]
    v.isSafe = false ∧ ∀ context : HtmlContext, context.Confines (v.written .html context) ∧
      ∀ c : HtmlContext, c.feed (v.written .html context).toList = c :=
  ⟨rfl, written_confined _ rfl⟩

end Value

end Stencil
