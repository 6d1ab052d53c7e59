import Stencil.Proofs.Escape.SafeText

/-!
# Functions and safe text

Of the functions of a new environment only `html` and `safe` make safe text, and only `safe` makes it
out of text that is not escaped.

* `Function.Harmless f` says that `f` gives harmless values for harmless arguments.
* `Function.standard_harmless` says so of every function of a new environment but `safe`.
-/

namespace Stencil

namespace Function

open Value

/-- The function gives harmless values for harmless arguments. -/
def Harmless {ε : Type} (f : List Value → Except ε Value) : Prop :=
  ∀ args w, (∀ v ∈ args, v.Harmless) → f args = .ok w → w.Harmless

/-- Faults in place of causes make no difference. -/
theorem Builtin.harmless_function {f : Builtin} (h : Harmless f) : Harmless f.function :=
  fun args w hargs hw => h args w hargs (Outcome.raised_eq_ok.1 hw)

theorem firstWith_mem (truth : Bool) (v : Value) (vs : List Value) :
    firstWith truth v vs ∈ v :: vs := by
  induction vs generalizing v with
  | nil => simp [firstWith]
  | cons w ws ih =>
    rw [firstWith]
    split
    · simp
    · exact List.mem_cons_of_mem _ (ih w)

theorem and_harmless : Harmless and := by
  intro args w hargs h
  cases args with
  | nil => cases h
  | cons v vs =>
    cases h
    exact hargs _ (firstWith_mem false v vs)

theorem or_harmless : Harmless or := by
  intro args w hargs h
  cases args with
  | nil => cases h
  | cons v vs =>
    cases h
    exact hargs _ (firstWith_mem true v vs)

theorem not_harmless : Harmless not := by
  intro args w _ h
  match args with
  | [] => cases h
  | [v] =>
    cases h
    exact harmless_of_eq_nil rfl
  | _ :: _ :: _ => cases h

/-- The comparisons give truth values. -/
theorem eq_harmless : Harmless eq := by
  intro args w _ h
  match args with
  | [] => cases h
  | [_] => cases h
  | v :: u :: vs =>
    obtain ⟨b, -, hb⟩ := Outcome.bind_eq_ok.1 h
    cases hb
    exact harmless_of_eq_nil rfl

theorem ne_harmless : Harmless ne := by
  intro args w _ h
  obtain ⟨-, -, h⟩ := Outcome.bind_eq_ok.1 h
  obtain ⟨v, -, hv⟩ := Outcome.bind_eq_ok.1 h
  cases hv
  exact harmless_of_eq_nil rfl

theorem ordering_harmless (name : String) (holds : Ordering → Bool) :
    Harmless (ordering name holds) := by
  intro args w _ h
  match args with
  | [] => cases h
  | [_] => cases h
  | [v, u] =>
    simp only [ordering] at h
    split at h
    · cases h
      exact harmless_of_eq_nil rfl
    · cases h
  | _ :: _ :: _ :: _ => cases h

theorem len_harmless : Harmless len := by
  intro args w _ h
  match args with
  | [] => cases h
  | [v] =>
    simp only [len] at h
    split at h
    · cases h
      exact harmless_of_eq_nil rfl
    · cases h
  | _ :: _ :: _ => cases h

/-- An item under a chain of keys is a part of the value. -/
theorem safeTexts_itemAt {w : Value} (keys : List Value) :
    ∀ {v : Value}, itemAt v keys = .ok w → w.safeTexts ⊆ v.safeTexts := by
  induction keys with
  | nil =>
    intro v h
    cases h
    exact List.Subset.refl _
  | cons key keys ih =>
    intro v h
    obtain ⟨u, hu, h⟩ := Outcome.bind_eq_ok.1 h
    exact List.Subset.trans (ih h) (safeTexts_item hu)

theorem index_harmless : Harmless index := by
  intro args w hargs h
  cases args with
  | nil => cases h
  | cons v keys => exact (hargs v (by simp)).of_subset (safeTexts_itemAt keys h)

/-- What is printed is text that is still to be escaped. -/
theorem text_harmless (f : List Value → String) :
    Harmless (fun args => .ok (.text (f args)) : Builtin) := by
  intro args w _ h
  cases h
  exact harmless_text _

theorem html_harmless : Harmless html := by
  intro args w _ h
  cases h
  refine harmless_safeText fun c hc hlt => ?_
  exact Escape.each_html _ c hc (by simp [hlt])

/-- **The functions of a new environment are harmless**, `safe` apart. -/
theorem standard_harmless {name : String} {f : Function} (hname : name ≠ "safe")
    (h : (name, f) ∈ standard) : Harmless f := by
  obtain ⟨b, hmem, rfl⟩ := exists_of_mem_standard h
  refine Builtin.harmless_function ?_
  simp only [builtins, List.mem_cons, Prod.mk.injEq, List.not_mem_nil, or_false] at hmem
  rcases hmem with ⟨-, rfl⟩ | ⟨-, rfl⟩ | ⟨-, rfl⟩ | ⟨-, rfl⟩ | ⟨-, rfl⟩ | ⟨-, rfl⟩ | ⟨-, rfl⟩ |
    ⟨-, rfl⟩ | ⟨-, rfl⟩ | ⟨-, rfl⟩ | ⟨-, rfl⟩ | ⟨-, rfl⟩ | ⟨-, rfl⟩ | ⟨-, rfl⟩ | ⟨-, rfl⟩ |
    ⟨rfl, -⟩ | ⟨-, rfl⟩
  · exact and_harmless
  · exact or_harmless
  · exact not_harmless
  · exact eq_harmless
  · exact ne_harmless
  · exact ordering_harmless _ _
  · exact ordering_harmless _ _
  · exact ordering_harmless _ _
  · exact ordering_harmless _ _
  · exact len_harmless
  · exact index_harmless
  · exact text_harmless _
  · exact text_harmless _
  · exact html_harmless
  · exact text_harmless _
  · exact absurd rfl hname
  · exact text_harmless _

end Function

end Stencil
