import Stencil.Proofs.Environment.Registration
import Stencil.Render.Basic

/-!
# Sessions

A session works with environments that start from a new one: it changes them, and it clones them, each
clone going its own way. This module says what holds of every environment of a session.

* `Change` lists the changes of an environment; `Change.after` is the environment after one, whether it
  goes through or not.
* `Lineage` is an environment with its past, and `session` runs the steps of a session.
* `Change.run_keeps` says what one change does: if it fails it leaves the environment as it was, and
  otherwise every template is one that it registers or one that was there before.
* `session_sound` says that every template of a session has the name that it is found under and the
  escaping that was chosen for this name when it was registered.
-/

namespace Stencil

/-! ## The names of compiled templates -/

theorem Delimited.name_of_mem_parse {s : Settings} {name source : String} {templates : Table Template}
    (h : (parse s name source).1 = .ok templates) {n : String} {t : Template}
    (ht : (n, t) ∈ templates) : t.name = n := by
  obtain ⟨segments, ds, b, -, -, rfl⟩ := parse_eq_ok h
  obtain ⟨t', -, heq⟩ := List.mem_map.1 (Table.mem_ofList ht)
  cases heq
  rfl

theorem Outline.name_of_mem_parse {s : Settings} {name source : String} {templates : Table Template}
    (h : (parse s name source).1 = .ok templates) {n : String} {t : Template}
    (ht : (n, t) ∈ templates) : t.name = n := by
  unfold parse at h
  dsimp only at h
  split at h
  · cases h
    cases List.mem_singleton.1 ht
    rfl
  · cases h

/-- Every template of a source has the name that it is kept under. -/
theorem FrontEnd.name_of_mem_parse {f : FrontEnd} {s : Settings} {name source : String}
    {templates : Table Template} (h : (f.parse s name source).1 = .ok templates) {n : String}
    {t : Template} (ht : (n, t) ∈ templates) : t.name = n := by
  cases f with
  | outline => exact Outline.name_of_mem_parse h ht
  | delimited => exact Delimited.name_of_mem_parse h ht

namespace Environment

variable {r r' : Registry}

/-! ## Templates after a change -/

theorem template_eq_ok {e : Environment} {n : String} {t : Template} :
    e.template n = .ok t ↔ Table.get? n e.templates = some t := by
  unfold template
  cases Table.get? n e.templates with
  | none => exact iff_of_false (fun h => by cases h) (fun h => by cases h)
  | some u => exact ⟨fun h => by cases h; rfl, fun h => by cases h; rfl⟩

theorem template_put_eq_ok {e : Environment} {key n : String} {u t : Template} :
    (e.put key u).template n = .ok t ↔
      key = n ∧ t = { u with escape := e.escaping n } ∨ key ≠ n ∧ e.template n = .ok t := by
  rw [template_eq_ok, template_eq_ok, put, Table.get?_insert]
  by_cases hkey : key = n
  · subst hkey
    simp [eq_comm]
  · simp [hkey]

theorem template_removeTemplate_eq_ok {e : Environment} {key n : String} {t : Template} :
    (e.removeTemplate key).template n = .ok t ↔ key ≠ n ∧ e.template n = .ok t := by
  rw [template_eq_ok, template_eq_ok, removeTemplate, Table.get?_erase]
  by_cases hkey : key = n <;> simp [hkey]

theorem addWith_run {name source extension : String} : addWith name source extension r =
    match Table.get? (bareExtension extension) r.environment.frontEnds with
    | none => .error { cause := .noFrontEnd extension } r
    | some f => compile f (logicalName r.environment.isFrontEnd name).1 source r := by
  simp only [addWith, bind, EStateM.bind, get, getThe, MonadStateOf.get, EStateM.get]
  cases Table.get? (bareExtension extension) r.environment.frontEnds <;> rfl

/-- Every template of an environment has one of some names, this name also being its own, and the
escaping that was chosen for the name before, or else it was there before under another name. -/
def Renews (names : List String) (e e' : Environment) : Prop :=
  ∀ n t, e'.template n = .ok t →
    n ∈ names ∧ t.name = n ∧ t.escape = e.escaping n ∨ n ∉ names ∧ e.template n = .ok t

/-- Registering templates goes through and renews their names. -/
theorem register_renews {templates : Table Template} : ∀ {r : Registry},
    (∀ n t, (n, t) ∈ templates → t.name = n) →
      ∃ r', register templates r = .ok ⟨⟩ r' ∧
        Renews (Table.names templates) r.environment r'.environment := by
  induction templates with
  | nil => exact fun _ => ⟨_, rfl, fun n t h => .inr ⟨List.not_mem_nil, h⟩⟩
  | cons entry templates ih =>
    intro r hnames
    obtain ⟨key, u⟩ := entry
    obtain ⟨r', hregister, hrenews⟩ := @ih
      { environment := r.environment.put key u
        events := .registered key u.nodes.length (r.environment.escaping key) :: r.events }
      fun n t h => hnames n t (List.mem_cons_of_mem _ h)
    refine ⟨r', hregister, fun n t h => ?_⟩
    rw [Table.names, List.map_cons, List.mem_cons, not_or]
    rcases hrenews n t h with ⟨hn, ht⟩ | ⟨hn, ht⟩
    · exact .inl ⟨.inr hn, ht⟩
    · rcases template_put_eq_ok.1 ht with ⟨rfl, rfl⟩ | ⟨hne, ht⟩
      · exact .inl ⟨.inl rfl, hnames key u List.mem_cons_self, rfl⟩
      · exact .inr ⟨⟨Ne.symm hne, hn⟩, ht⟩

/-- Changes that fail leave the environment as it was, and the others renew some names. -/
def Replaces (names : List String) (e : Environment) :
    EStateM.Result Fault Registry PUnit → Prop
  | .ok _ r => Renews names e r.environment
  | .error _ r => r.environment = e

/-- Compiling a source renews the title of the source and the names of its definitions. -/
theorem compile_replaces (f : FrontEnd) (logical source : String) (r : Registry) :
    Replaces (f.title logical :: f.defines r.environment.settings source) r.environment
      (compile f logical source r) := by
  rw [compile_run]
  cases hparse : (f.parse r.environment.settings logical source).1 with
  | error fault => rfl
  | ok templates =>
    obtain ⟨r', hregister, hrenews⟩ := register_renews
      (r := { r with events := (f.parse r.environment.settings logical source).2.reverse ++ r.events })
      fun n t => FrontEnd.name_of_mem_parse hparse
    dsimp only
    rw [hregister]
    intro n t ht
    rw [List.mem_cons, ← FrontEnd.mem_names_parse hparse]
    exact hrenews n t ht

/-! ## Changes -/

/-- A change of an environment. -/
inductive Change where
  /-- Adds a source, whose front end is found by its name. -/
  | add (name source : String)
  /-- Adds a source with the front end of an extension. -/
  | addWith (name source extension : String)
  /-- Adds a template that is compiled already. -/
  | addTemplate (t : Template)
  | removeTemplate (name : String)
  /-- Changes the settings in any way. -/
  | settings (f : Settings → Settings)
  | addFunction (name : String) (f : Function)
  | removeFunction (name : String)
  /-- Sets the choice of escaping. -/
  | escaping (choice : String → AutoEscape)
  | addFrontEnd (extension : String) (f : FrontEnd)

namespace Change

/-- Replaces the environment. -/
def alter (f : Environment → Environment) : Update PUnit :=
  modify fun r => { r with environment := f r.environment }

/-- What a change does. -/
def update : Change → Update PUnit
  | .add name source => Environment.add name source
  | .addWith name source extension => Environment.addWith name source extension
  | .addTemplate t => Environment.addTemplate t
  | .removeTemplate name => alter (·.removeTemplate name)
  | .settings f => alter fun e => { e with settings := f e.settings }
  | .addFunction name f => alter (·.addFunction name f)
  | .removeFunction name => alter (·.removeFunction name)
  | .escaping choice => alter fun e => { e with escaping := choice }
  | .addFrontEnd extension f => alter (·.addFrontEnd extension f)

/-- Makes a change to an environment. -/
def run (c : Change) (e : Environment) : EStateM.Result Fault Registry PUnit :=
  c.update { environment := e }

/-- The environment after a change, which may have failed. -/
def after (c : Change) (e : Environment) : Environment :=
  match c.run e with
  | .ok _ r => r.environment
  | .error _ r => r.environment

/-- The names that a source is registered under. -/
def sourceNames (e : Environment) (f : FrontEnd) (name source : String) : List String :=
  f.title (logicalName e.isFrontEnd name).1 :: f.defines e.settings source

/-- The names that a change registers templates under if it goes through. -/
def names (e : Environment) : Change → List String
  | .add name source =>
    sourceNames e (e.frontEnd (logicalName e.isFrontEnd name).2) name source
  | .addWith name source extension =>
    match Table.get? (bareExtension extension) e.frontEnds with
    | some f => sourceNames e f name source
    | none => []
  | .addTemplate t => [t.name]
  | _ => []

/-- The change goes through and registers a template under the name. -/
def Registers (c : Change) (e : Environment) (n : String) : Prop :=
  (∃ r, c.run e = .ok ⟨⟩ r) ∧ n ∈ c.names e

/-- **What a change does.** If it fails it leaves the environment as it was. If it goes through, a
template has one of the names that it registers, or it was there before under another one. -/
theorem run_replaces (c : Change) (e : Environment) : Replaces (c.names e) e (c.run e) := by
  have hsame : ∀ n t, e.template n = .ok t → n ∈ [] ∧ t.name = n ∧ t.escape = e.escaping n ∨
      n ∉ [] ∧ e.template n = .ok t := fun n t ht => .inr ⟨List.not_mem_nil, ht⟩
  cases c with
  | add name source =>
    change Replaces _ e (Environment.add name source { environment := e })
    rw [add_eq_compile rfl]
    exact compile_replaces _ _ _ _
  | addWith name source extension =>
    change Replaces _ e (Environment.addWith name source extension { environment := e })
    rw [addWith_run, names]
    cases Table.get? (bareExtension extension) e.frontEnds with
    | none => rfl
    | some f => exact compile_replaces f _ source _
  | addTemplate t =>
    change Replaces [t.name] e (register [(t.name, t)] { environment := e })
    have hname : ∀ n u, (n, u) ∈ [(t.name, t)] → u.name = n := fun n u h => by
      cases List.mem_singleton.1 h
      rfl
    obtain ⟨r, hregister, hrenews⟩ := register_renews (r := { environment := e }) hname
    rw [hregister]
    exact hrenews
  | removeTemplate name => exact fun n t ht => hsame n t (template_removeTemplate_eq_ok.1 ht).2
  | settings | addFunction | removeFunction | escaping | addFrontEnd => exact hsame

/-- A template that has been removed is not found. -/
theorem not_found_of_removeTemplate {e : Environment} {n : String} {t : Template} :
    ((Change.removeTemplate n).after e).template n ≠ .ok t :=
  fun h => (template_removeTemplate_eq_ok.1 h).1 rfl

end Change

/-! ## Environments with their past -/

/-- An environment with its past: the changes so far, each with the environment that it was made to. -/
structure Lineage where
  environment : Environment
  past : List (Environment × Change) := []

namespace Lineage

/-- Makes a change. -/
def change (l : Lineage) (c : Change) : Lineage :=
  { environment := c.after l.environment, past := l.past ++ [(l.environment, c)] }

/-- The template has the name as its own, and some change of the past has registered it: the escaping
is what was chosen for the name then, and no later change has registered or removed the name. -/
def Sourced (l : Lineage) (n : String) (t : Template) : Prop :=
  t.name = n ∧ ∃ before e c later, l.past = before ++ (e, c) :: later ∧ c.Registers e n ∧
    t.escape = e.escaping n ∧ ∀ p ∈ later, ¬ p.2.Registers p.1 n ∧ p.2 ≠ .removeTemplate n

/-- What holds of an environment of a session. -/
structure Sound (l : Lineage) : Prop where
  /-- Every template has been registered under the name that it has and is found under. -/
  sourced : ∀ n t, l.environment.template n = .ok t → l.Sourced n t
  /-- A change that fails changes nothing. -/
  atomic : ∀ (c : Change) f r, c.run l.environment = .error f r → r.environment = l.environment
  /-- A template that is got by its name renders as the name does. -/
  rendered : ∀ n ∈ l.environment.names, ∃ t, l.environment.template n = .ok t ∧
    ∀ context : RenderContext, l.environment.renderTemplate t context =
      l.environment.render { context with main := some n }

variable {l : Lineage} {c : Change} {n : String} {t : Template}

theorem sourced_new (hc : c.Registers l.environment n) (hname : t.name = n)
    (hescape : t.escape = l.environment.escaping n) : (l.change c).Sourced n t :=
  ⟨hname, l.past, l.environment, c, [], rfl, hc, hescape, fun _ hp => nomatch hp⟩

/-- A change that neither registers nor removes a name leaves its template as it was registered. -/
theorem Sourced.change (h : l.Sourced n t) (hregisters : ¬ c.Registers l.environment n)
    (hremove : c ≠ .removeTemplate n) : (l.change c).Sourced n t := by
  obtain ⟨hname, before, e, d, later, hpast, hd, hescape, hlater⟩ := h
  refine ⟨hname, before, e, d, later ++ [(l.environment, c)], ?_, hd, hescape, ?_⟩
  · rw [Lineage.change, hpast, List.append_assoc, List.cons_append]
  · intro p hp
    rcases List.mem_append.1 hp with hp | hp
    · exact hlater p hp
    · cases List.mem_singleton.1 hp
      exact ⟨hregisters, hremove⟩

/-- **A change keeps the templates of an environment sourced.** -/
theorem sourced_change (h : ∀ n t, l.environment.template n = .ok t → l.Sourced n t) (c : Change) :
    ∀ n t, (l.change c).environment.template n = .ok t → (l.change c).Sourced n t := by
  intro n t ht
  have hremove : c ≠ .removeTemplate n := by
    rintro rfl
    exact Change.not_found_of_removeTemplate ht
  have hreplaces := c.run_replaces l.environment
  change (c.after l.environment).template n = .ok t at ht
  unfold Change.after at ht
  cases hrun : c.run l.environment with
  | ok _ r =>
    rw [hrun] at ht hreplaces
    rcases hreplaces n t ht with ⟨hn, hname, hescape⟩ | ⟨hn, hbefore⟩
    · exact sourced_new ⟨⟨r, hrun⟩, hn⟩ hname hescape
    · exact (h n t hbefore).change (fun hc => hn hc.2) hremove
  | error f r =>
    rw [hrun] at ht hreplaces
    have hsame : r.environment = l.environment := hreplaces
    have hfails : ¬ c.Registers l.environment n := by
      rintro ⟨⟨r', hok⟩, -⟩
      rw [hrun] at hok
      cases hok
    exact (h n t (hsame ▸ ht)).change hfails hremove

theorem sound_of_sourced (h : ∀ n t, l.environment.template n = .ok t → l.Sourced n t) : l.Sound where
  sourced := h
  atomic c f r hrun := by
    have hreplaces := c.run_replaces l.environment
    rw [hrun] at hreplaces
    exact hreplaces
  rendered n hn := by
    obtain ⟨t, ht⟩ := mem_names_iff.1 hn
    refine ⟨t, ht, fun context => ?_⟩
    rw [renderTemplate, (h n t ht).1]

end Lineage

/-! ## Sessions -/

/-- A step of a session: a change of one of its environments, or a clone of one. -/
inductive Step where
  | change (index : Nat) (c : Change)
  | clone (index : Nat)

/-- The environments of a session after a step. -/
def Step.apply (ls : List Lineage) : Step → List Lineage
  | .change i c =>
    match ls[i]? with
    | some l => ls.set i (l.change c)
    | none => ls
  | .clone i => ls ++ ls[i]?.toList

/-- The environments of a session that starts with one environment. -/
def session (start : Environment) (steps : List Step) : List Lineage :=
  steps.foldl Step.apply [{ environment := start }]

/-- What every change keeps, every step of a session keeps. -/
theorem step_keeps {P : Lineage → Prop} (hP : ∀ l c, P l → P (l.change c)) {ls : List Lineage}
    (h : ∀ l ∈ ls, P l) (s : Step) : ∀ l ∈ s.apply ls, P l := by
  cases s with
  | change i c =>
    simp only [Step.apply]
    cases hi : ls[i]? with
    | none => exact h
    | some l =>
      intro l' hl'
      rcases List.mem_or_eq_of_mem_set hl' with hl' | rfl
      · exact h l' hl'
      · exact hP l c (h l (List.mem_of_getElem? hi))
  | clone i =>
    intro l hl
    rcases List.mem_append.1 hl with hl | hl
    · exact h l hl
    · exact h l (List.mem_of_getElem? (Option.mem_toList.1 hl))

/-- What every change keeps holds throughout a session. -/
theorem session_keeps {P : Lineage → Prop} (hP : ∀ l c, P l → P (l.change c)) {start : Environment}
    (hstart : P { environment := start }) (steps : List Step) : ∀ l ∈ session start steps, P l := by
  suffices ∀ ls : List Lineage, (∀ l ∈ ls, P l) → ∀ l ∈ steps.foldl Step.apply ls, P l from
    this _ fun l hl => List.mem_singleton.1 hl ▸ hstart
  induction steps with
  | nil => exact fun ls h => h
  | cons s steps ih => exact fun ls h => ih _ (step_keeps hP h s)

/-- **What holds of every environment of a session.** However a new or empty environment is changed and
cloned, every template has the name that it is found under and the escaping that was chosen for this
name when it was registered last; a change that fails leaves the environment as it was; and a template
that is got by a name renders as the name does in any context. -/
theorem session_sound {start : Environment} (hstart : start = .standard ∨ start = .empty)
    (steps : List Step) : ∀ l ∈ session start steps, l.Sound := by
  have hempty : ∀ n t, start.template n ≠ .ok t := by
    rcases hstart with rfl | rfl <;> exact fun n t h => nomatch h
  intro l hl
  refine Lineage.sound_of_sourced ?_
  exact session_keeps (P := fun l => ∀ n t, l.environment.template n = .ok t → l.Sourced n t)
    (fun l c h => Lineage.sourced_change h c) (fun n t h => absurd h (hempty n t)) steps l hl

/-- Steps that clone an environment with two templates, choose another escaping for the clone, register
one of the templates again in it and fail to register the other, and remove a template of the first. -/
def forkingSteps : List Step :=
  [.change 0 (.add "page.html.tmpl" definingSource), .clone 0, .change 1 (.escaping fun _ => .html),
    .change 1 (.add "b" "text"), .change 1 (.add "page.html" "\x7b\x7b end \x7d\x7d"),
    .change 0 (.removeTemplate "b")]

/-- The names and escapings of the templates of an environment. -/
def escapings (e : Environment) : List (String × AutoEscape) :=
  e.templates.map fun p => (p.1, p.2.escape)

theorem session_sound_forkingSteps :
    (session .standard forkingSteps).map (escapings ·.environment) =
      [[("page.html", .html)], [("b", .html), ("page.html", .html)]] ∧
    ∀ l ∈ session .standard forkingSteps, l.Sound :=
  ⟨by decide +kernel, session_sound (.inl rfl) forkingSteps⟩

end Environment

end Stencil
