import Stencil.Proofs.Delimited.Compiling
import Stencil.Proofs.Outline.Emission
import Stencil.Proofs.Pipeline.Malformed
import Stencil.Proofs.Template.Faults
import Stencil.Proofs.Template.Marks

/-!
# Strict interpolation

An outline that is compiled with strict interpolation either is compiled to the same template, or is
refused at the first interpolation that would be kept as text.

* `Build.Stricter` says so of two computations, step by step; `Outline.emits_stricter` says that it holds
  for everything that outlines are written with.
* `Outline.strict_only_rejects` concludes for a source.
-/

namespace Stencil

variable {α β : Type} {d : Delimiters}

/-! ## Two computations -/

/-- What is logged for an interpolation that is kept as text, and the fault that it is otherwise. -/
inductive Kept (d : Delimiters) : Event → Fault → Prop
  | mk {line : Nat} {statement : String} {c : Cause} (h : c.kind = .badSyntax) :
    Kept d (.keptAsText line (d.left ++ statement ++ d.right)
      { cause := c, line, statement := some statement })
      { cause := c, line, statement := some statement }

theorem Builder.events_text (t : String) (b : Builder) : (b.text t).events = b.events := by
  by_cases ht : t = ""
  · rw [ht]
    rfl
  · rw [Builder.text_of_ne ht]

namespace Build

/-- Where the one computation succeeds and keeps no interpolation as text, the other one does the same;
else it stops with the fault of the first that is kept. -/
def Stricter (d : Delimiters) (lenient strict : Build α) : Prop :=
  ∀ b a b', lenient b = .ok a b' →
    (b'.events = b.events ∧ strict b = .ok a b') ∨
      ∃ later e f c, b'.events = later ++ e :: b.events ∧ Kept d e f ∧ strict b = .error f c

namespace Stricter

variable {act act' : Build α}

/-- The log only grows. -/
theorem exists_events (h : Stricter d act act') {b b' : Builder} {a : α} (hact : act b = .ok a b') :
    ∃ later, b'.events = later ++ b.events := by
  rcases h b a b' hact with ⟨hevents, -⟩ | ⟨later, e, -, -, hevents, -⟩
  · exact ⟨[], hevents⟩
  · exact ⟨later ++ [e], by rw [hevents, List.append_assoc, List.singleton_append]⟩

/-- A computation without interpolations. -/
theorem quiet (h : ∀ b a b', act b = .ok a b' → b'.events = b.events) : Stricter d act act :=
  fun b a b' hact => .inl ⟨h b a b' hact, hact⟩

theorem pure (a : α) : Stricter d (Pure.pure a) (Pure.pure a) := .quiet fun _ _ _ h => by
  cases h
  rfl

theorem throw (f : Fault) : Stricter d (MonadExcept.throw f : Build α) (MonadExcept.throw f) :=
  .quiet fun _ _ _ h => nomatch h

theorem modifyState {g : Builder → Builder} (h : ∀ b, (g b).events = b.events) :
    Stricter d (modify g : Build PUnit) (modify g) := .quiet fun b _ _ hg => by
  cases hg
  exact h b

/-- **The first interpolation that is kept** is that of the first computation that keeps one. -/
theorem bind {k k' : α → Build β} (h : Stricter d act act') (hk : ∀ a, Stricter d (k a) (k' a)) :
    Stricter d (act >>= k) (act' >>= k') := by
  intro b c b' hrun
  obtain ⟨a, b₁, hact, hrun⟩ := bind_eq_ok.1 hrun
  rcases h b a b₁ hact with ⟨hevents, hstrict⟩ | ⟨later, e, f, c, hevents, hkept, hstrict⟩
  · have hbind : (act' >>= k') b = k' a b₁ := by
      change EStateM.bind act' k' b = _
      rw [EStateM.bind, hstrict]
    rw [hbind, ← hevents]
    exact hk a b₁ c b' hrun
  · obtain ⟨more, hmore⟩ := (hk a).exists_events hrun
    refine .inr ⟨more ++ later, e, f, c, ?_, hkept, ?_⟩
    · rw [hmore, hevents, List.append_assoc]
    · change EStateM.bind act' k' b = _
      rw [EStateM.bind, hstrict]

theorem text (t : String) : Stricter d (Build.text t) (Build.text t) :=
  .modifyState (Builder.events_text t)

theorem action (statement : List Char) (line : Nat) :
    Stricter d (Build.action statement line) (Build.action statement line) := by
  refine .bind (.quiet fun _ _ _ h => by cases h; rfl) fun b => ?_
  split
  · exact .modifyState fun _ => rfl
  · exact .throw _

/-- A body has a list of nodes of its own, and the same log. -/
theorem nested {act act' : Build PUnit} (h : Stricter d act act') :
    Stricter d (Build.nested act) (Build.nested act') := by
  have hget : Stricter d (get : Build Builder) get := .quiet fun _ _ _ h => by cases h; rfl
  exact .bind hget fun _ => .bind (.modifyState fun _ => rfl) fun _ => .bind h fun _ =>
    .bind hget fun _ => .bind (.modifyState fun _ => rfl) fun _ => .pure _

variable (s : Settings)

/-- An interpolation that cannot be read is kept and logged, or stops the compilation. -/
theorem interpolation (pad : Bool) (line : Nat) (statement : List Char) :
    Stricter s.delimiters
      (Build.interpolation { s with strictInterpolation := false } pad line statement)
      (Build.interpolation { s with strictInterpolation := true } pad line statement) := by
  intro b a b' h
  cases hnode : actionNode b.context statement line with
  | ok n =>
    have hpush : ∀ s' : Settings, Build.interpolation s' pad line statement b = .ok ⟨⟩ (b.push n) := by
      intro s'
      unfold Build.interpolation
      rw [bind_ok (Builder.get_run b), hnode]
      rfl
    rw [hpush] at h
    cases h
    exact .inl ⟨rfl, hpush _⟩
  | error c =>
    have hstrict : Build.interpolation { s with strictInterpolation := true } pad line statement b =
        .error { cause := c, line, statement := some (String.ofList statement) } b := by
      unfold Build.interpolation
      rw [bind_ok (Builder.get_run b), hnode]
      rfl
    refine .inr ⟨[], _, _, b, ?_, .mk (kind_of_actionNode hnode), hstrict⟩
    obtain ⟨_, _, hget, h⟩ := bind_eq_ok.1 h
    cases hget
    rw [hnode] at h
    obtain ⟨_, b₁, hevent, h⟩ := bind_eq_ok.1 h
    obtain ⟨_, b₂, htext, h⟩ := bind_eq_ok.1 h
    cases hevent
    cases htext
    cases pad with
    | true =>
      cases h
      rw [Builder.events_text, Builder.events_text]
      rfl
    | false =>
      cases h
      rw [Builder.events_text]
      rfl

end Stricter

end Build

/-! ## Outlines -/

namespace Outline

theorem emits_stricter (s : Settings) :
    Emits { s with strictInterpolation := false } { s with strictInterpolation := true }
      (fun act act' => Build.Stricter s.delimiters act act') (fun _ => True) where
  settings := rfl
  pure := .pure
  throw := .throw
  bind := .bind
  text := .text
  action := .action
  interpolation := .interpolation s
  empty := trivial
  nested h hk := .bind (.nested h) fun ns => hk ns trivial
  branch _ _ := .modifyState fun _ => rfl

section Sources

variable {s : Settings} {name source : String} {ts : Table Template} {events : List Event}

/-- Nothing but interpolations that are kept as text is logged, and what is written with strict
interpolation depends on the first of them. -/
theorem parse_strict
    (h : parse { s with strictInterpolation := false } name source = (.ok ts, events)) :
    (events = [] ∧ (parse { s with strictInterpolation := true } name source).1 = .ok ts) ∨
      ∃ line c statement later, c.kind = .badSyntax ∧
        events = .keptAsText line (s.delimiters.left ++ statement ++ s.delimiters.right)
          { cause := c, line, statement := some statement } :: later ∧
        (parse { s with strictInterpolation := true } name source).1 = .error
          { cause := c, template := some (baseName name), line, statement := some statement } := by
  have hstricter := (emits_stricter s).compile source.toList {}
  unfold parse EStateM.run at h ⊢
  cases hlenient : compile { s with strictInterpolation := false } source.toList {} with
  | error f b =>
    rw [hlenient] at h
    cases h
  | ok u b =>
    rw [hlenient] at h
    cases h
    rcases hstricter u b hlenient with ⟨hevents, hstrict⟩ | ⟨later, e, f, c, hevents, hkept, hstrict⟩
    · exact .inl ⟨by rw [hevents]; rfl, by rw [hstrict]⟩
    · cases hkept with
      | @mk line statement cause hkind =>
        refine .inr ⟨line, cause, statement, later.reverse, hkind, ?_, ?_⟩
        · rw [hevents]
          simp
        · rw [hstrict]
          exact congrArg Except.error (Fault.atPlace_zero _ _ _ _)

/-- **Strict interpolation only rejects.** If an outline is compiled without it, it is compiled with it
to the same template exactly if no interpolation was kept as text. Else it is refused with an error of
syntax at the line and in the statement of the first one that was kept. -/
theorem strict_only_rejects
    (h : parse { s with strictInterpolation := false } name source = (.ok ts, events)) :
    ((parse { s with strictInterpolation := true } name source).1 = .ok ts ↔
      ∀ line text f, .keptAsText line text f ∉ events) ∧
    ∀ before line text f later, events = before ++ .keptAsText line text f :: later →
      (∀ line text f, .keptAsText line text f ∉ before) →
      ∃ c statement, c.kind = .badSyntax ∧ text = s.delimiters.left ++ statement ++ s.delimiters.right ∧
        f = { cause := c, line, statement := some statement } ∧
        (parse { s with strictInterpolation := true } name source).1 = .error
          { cause := c, template := some (baseName name), line, statement := some statement } := by
  rcases parse_strict h with ⟨rfl, hstrict⟩ | ⟨line, c, statement, later, hkind, rfl, hstrict⟩
  · refine ⟨iff_of_true hstrict (by simp), fun before line text f later hevents _ => ?_⟩
    cases before <;> cases hevents
  · refine ⟨iff_of_false (by simp [hstrict]) fun hnone => hnone _ _ _ List.mem_cons_self, ?_⟩
    intro before line' text f more hevents hbefore
    cases before with
    | nil =>
      cases hevents
      exact ⟨c, statement, hkind, rfl, rfl, hstrict⟩
    | cons e before =>
      obtain ⟨rfl, -⟩ := List.cons.inj hevents
      exact (hbefore _ _ _ List.mem_cons_self).elim

end Sources

/-- An outline with two interpolations that cannot be read, the first one in a body. -/
def laxPage : String := "- if .A\n  \x7b\x7b | \x7d\x7d\n\x7b\x7b ) \x7d\x7d"

/-- Settings without filters and doctypes. -/
def laxSettings : Settings := { filters := [], doctypes := [] }

/-- What it is compiled to if both are kept. -/
def laxTemplate : Template where
  name := "p"
  nodes := [.cond 1 false { commands := [[.field ["A"]]] } [.text "\x7b\x7b | \x7d\x7d "] [],
    .text "\x7b\x7b ) \x7d\x7d "]

/-- What is logged for them. -/
def laxEvents : List Event :=
  [.keptAsText 2 "\x7b\x7b | \x7d\x7d" { cause := .missingCommand, line := 2, statement := some " | " },
    .keptAsText 3 "\x7b\x7b ) \x7d\x7d" { cause := .missingCommand, line := 3, statement := some " ) " }]

/-- The one in the body stops the compilation. -/
theorem strict_only_rejects_laxPage :
    parse { laxSettings with strictInterpolation := false } "p" laxPage =
        (.ok [("p", laxTemplate)], laxEvents) ∧
      (parse { laxSettings with strictInterpolation := true } "p" laxPage).1 ≠
        .ok [("p", laxTemplate)] ∧
      (parse { laxSettings with strictInterpolation := true } "p" laxPage).1 = .error
        { cause := .missingCommand, template := some "p", line := 2, statement := some " | " } := by
  have h : parse { laxSettings with strictInterpolation := false } "p" laxPage =
      (.ok [("p", laxTemplate)], laxEvents) := by cbv
  obtain ⟨hiff, hfirst⟩ := strict_only_rejects h
  obtain ⟨c, statement, -, -, hf, hstrict⟩ := hfirst [] 2 _ _ _ rfl (by simp)
  cases hf
  exact ⟨h, fun hok => hiff.1 hok _ _ _ List.mem_cons_self, hstrict⟩

end Outline

end Stencil
