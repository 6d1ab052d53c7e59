import Mathlib
import Stencil.Proofs.Delimited.Recording
import Stencil.Proofs.Entries
import Stencil.Proofs.Text.Search

/-!
# What a source is registered under

A source registers one template for itself and one for every definition in it. Its own template has
the logical name of the source, but an outline takes its extension out of that name once more,
wherever it stands.

* `FrontEnd.title` is the name that a front end gives a source, and `FrontEnd.defines` lists the names
  of its definitions; `Delimited.mem_names_parse` and `Outline.names_parse` say that the templates of
  a source have these names and no others.
* `Registered` says that a name is found after a change, and that the names are those before, this one
  and those of the definitions.
* `add_registered` says which name of a source that is, and when it is the logical name.
-/

namespace Stencil

/-! ## Definitions of delimited sources -/

namespace Delimited

/-- The name that a segment defines a template under. -/
def Segment.definition? : Segment → Option String
  | .text _ => none
  | .action statement _ =>
    match Keyword.of statement with
    | .define subject => (parsePipeline subject).toOption.bind definedName?
    | _ => none

/-- The name of the template that an open frame defines. -/
def Frame.definition? (f : Frame) : Option String :=
  match f.construct with
  | .branch .. => none
  | .define name _ => some name

/-- Closing frames ends the innermost definition among them and loses none. -/
theorem closeFrame_definitions {frames : List Frame} : ∀ {b b' : Builder}
    {r : List Frame × Option Definition}, closeFrame frames b = .ok r b' → ∀ n,
      (n ∈ frames.filterMap Frame.definition? ↔
        n ∈ r.2.toList.map (·.name) ∨ n ∈ r.1.filterMap Frame.definition?) := by
  induction frames with
  | nil =>
    intro b b' r h
    cases h
  | cons f fs ih =>
    intro b b' r h n
    obtain ⟨construct, line, outer⟩ := f
    match construct with
    | .define name context =>
      cases h
      simp [Frame.definition?]
    | .branch branch p chained body =>
      rw [closeFrame_branch] at h
      cases chained with
      | true => simpa [Frame.definition?] using ih h n
      | false =>
        cases h
        simp [Frame.definition?]

/-- An `else` changes no definition. -/
theorem elseFrame_definitions {frames frames' : List Frame} {rest : List Char} {line : Nat}
    {b b' : Builder} (h : elseFrame rest line frames b = .ok frames' b') :
    frames'.filterMap Frame.definition? = frames.filterMap Frame.definition? := by
  match frames with
  | [] => cases h
  | ⟨construct, start, outer⟩ :: fs =>
    match construct with
    | .define _ _ => cases h
    | .branch _ _ _ (some _) => cases h
    | .branch branch p chained none =>
      unfold elseFrame at h
      dsimp only at h
      obtain ⟨b₀, b₁, hget, h⟩ := Build.bind_eq_ok.1 h
      cases hget
      cases hrest : rest.isEmpty with
      | true =>
        rw [hrest] at h
        cases h
        rfl
      | false =>
        rw [hrest] at h
        cases hchained : chained? rest with
        | none =>
          rw [hchained] at h
          cases h
        | some next =>
          rw [hchained] at h
          obtain ⟨q, b₂, hq, h⟩ := Build.bind_eq_ok.1 h
          obtain ⟨_, b₃, hmodify, h⟩ := Build.bind_eq_ok.1 h
          cases hmodify
          obtain ⟨f, b₄, hf, h⟩ := Build.bind_eq_ok.1 h
          cases hf
          cases h
          rfl

/-- **The definitions that a source is compiled to** are those that have ended, those that are open
and those that its segments say. -/
theorem mem_names_compile {segments : List Segment} : ∀ {frames : List Frame}
    {done definitions : List Definition} {b b' : Builder},
    compile frames done segments b = .ok definitions b' → ∀ n,
      (n ∈ definitions.map (·.name) ↔ n ∈ done.map (·.name) ∨
        n ∈ frames.filterMap Frame.definition? ∨ n ∈ segments.filterMap Segment.definition?) := by
  induction segments with
  | nil =>
    intro frames done definitions b b' h n
    cases frames with
    | nil =>
      cases h
      simp
    | cons f fs => cases h
  | cons segment segments ih =>
    intro frames done definitions b b' h n
    cases segment with
    | text s =>
      obtain ⟨_, b₁, -, h⟩ := Build.bind_eq_ok.1 h
      simpa [Segment.definition?] using ih h n
    | action statement line =>
      rw [compile] at h
      cases hkeyword : Keyword.of statement with
      | finish =>
        rw [hkeyword] at h
        obtain ⟨⟨fs, ended⟩, b₁, hclose, h⟩ := Build.bind_eq_ok.1 h
        have hframes := closeFrame_definitions hclose n
        have hsegments := ih h n
        simp only [List.map_append, List.mem_append] at hframes hsegments
        simp only [List.filterMap_cons, Segment.definition?, hkeyword]
        rw [hsegments, hframes, or_assoc, or_assoc, or_left_comm]
      | otherwise rest =>
        rw [hkeyword] at h
        obtain ⟨fs, b₁, helse, h⟩ := Build.bind_eq_ok.1 h
        simpa [Segment.definition?, hkeyword, elseFrame_definitions helse] using ih h n
      | branch branch subject =>
        rw [hkeyword] at h
        obtain ⟨p, b₁, -, h⟩ := Build.bind_eq_ok.1 h
        obtain ⟨f, b₂, hopen, h⟩ := Build.bind_eq_ok.1 h
        cases hopen
        simpa [Segment.definition?, Frame.definition?, hkeyword] using ih h n
      | define subject =>
        rw [hkeyword] at h
        obtain ⟨p, b₁, hp, h⟩ := Build.bind_eq_ok.1 h
        obtain ⟨hsubject, -⟩ := pipeline_eq_ok hp
        cases hname : definedName? p with
        | none =>
          simp only [hname] at h
          cases h
        | some name =>
          simp only [hname] at h
          obtain ⟨b₂, b₃, hget, h⟩ := Build.bind_eq_ok.1 h
          obtain ⟨f, b₄, hopen, h⟩ := Build.bind_eq_ok.1 h
          obtain ⟨_, b₅, -, h⟩ := Build.bind_eq_ok.1 h
          cases hopen
          have hsegments := ih h n
          simp only [List.filterMap_cons, Frame.definition?, List.mem_cons] at hsegments
          simp only [List.filterMap_cons, Segment.definition?, hkeyword, hsubject, Except.toOption,
            Option.bind_some, hname, List.mem_cons]
          rw [hsegments, or_assoc, or_left_comm (a := n = name)]
      | action =>
        rw [hkeyword] at h
        obtain ⟨_, b₁, -, h⟩ := Build.bind_eq_ok.1 h
        simpa [Segment.definition?, hkeyword] using ih h n

/-- The names that a source defines templates under. -/
def definitions (s : Settings) (source : String) : List String :=
  match Segment.ofSource s.delimiters source.toList with
  | .ok segments => segments.filterMap Segment.definition?
  | .error _ => []

/-- **The templates of a delimited source** have its name and those of its definitions. -/
theorem mem_names_parse {s : Settings} {name source : String} {templates : Table Template}
    (h : (parse s name source).1 = .ok templates) (n : String) :
    n ∈ Table.names templates ↔ n = name ∨ n ∈ definitions s source := by
  obtain ⟨segments, ds, b, hsegments, hrun, rfl⟩ := parse_eq_ok h
  have hnames := mem_names_compile hrun n
  simp only [List.map_nil, List.filterMap_nil, List.not_mem_nil, false_or] at hnames
  unfold definitions
  rw [hsegments, byName, Table.mem_names_ofList, ← hnames]
  simp [Definition.template]

end Delimited

/-! ## Outlines -/

namespace Outline

/-- An outline keeps a name that its extension does not occur in. -/
theorem baseName_eq_self_iff {name : String} :
    baseName name = name ↔ ¬ extensionMark <:+: name.toList := by
  rw [← Text.cut?_eq_none_iff]
  unfold baseName
  cases hcut : Text.cut? extensionMark name.toList with
  | none => simp
  | some p =>
    obtain ⟨before, rest⟩ := p
    simp only [reduceCtorEq, iff_false]
    intro heq
    have hname := Text.cut?_eq_append hcut
    rw [← heq, String.toList_ofList] at hname
    have hlength := congrArg List.length hname
    simp only [List.length_append] at hlength
    have hmark : extensionMark.length = 5 := rfl
    omega

/-- **The template of an outline** has its name without the extension of outlines. -/
theorem names_parse {s : Settings} {name source : String} {templates : Table Template}
    (h : (parse s name source).1 = .ok templates) : Table.names templates = [baseName name] := by
  unfold parse at h
  dsimp only at h
  split at h
  · cases h
    rfl
  · cases h

end Outline

/-! ## Front ends -/

namespace FrontEnd

/-- The name that a front end gives the template of a source with a logical name. -/
def title : FrontEnd → String → String
  | .outline, logical => Outline.baseName logical
  | .delimited, logical => logical

/-- The names that a source defines further templates under; outlines have no definitions. -/
def defines : FrontEnd → Settings → String → List String
  | .outline, _, _ => []
  | .delimited, s, source => Delimited.definitions s source

theorem title_eq_self_iff {f : FrontEnd} {logical : String} :
    f.title logical = logical ↔ f = .delimited ∨ ¬ Outline.extensionMark <:+: logical.toList := by
  cases f with
  | outline => simp [title, Outline.baseName_eq_self_iff]
  | delimited => simp [title]

/-- The templates of a source. -/
theorem mem_names_parse {f : FrontEnd} {s : Settings} {logical source : String}
    {templates : Table Template} (h : (f.parse s logical source).1 = .ok templates) (n : String) :
    n ∈ Table.names templates ↔ n = f.title logical ∨ n ∈ f.defines s source := by
  cases f with
  | outline =>
    rw [Outline.names_parse h]
    simp [title, defines]
  | delimited => exact Delimited.mem_names_parse h n

end FrontEnd

/-! ## Registration -/

namespace Environment

variable {r r' : Registry} {name logical source : String} {f : FrontEnd}

theorem mem_names_iff {e : Environment} : name ∈ e.names ↔ ∃ t, e.template name = .ok t := by
  unfold Environment.names Environment.template
  rw [← Table.contains_iff, Table.contains]
  cases Table.get? name e.templates with
  | none =>
    refine iff_of_false Bool.false_ne_true ?_
    rintro ⟨t, h⟩
    cases h
  | some t => exact iff_of_true rfl ⟨t, rfl⟩

theorem mem_names_put {e : Environment} {key : String} {t : Template} :
    name ∈ (e.put key t).names ↔ name = key ∨ name ∈ e.names := Table.mem_names_insert

/-- Registering templates adds their names. -/
theorem mem_names_register {templates : Table Template} : ∀ {r : Registry},
    register templates r = .ok ⟨⟩ r' →
      (name ∈ r'.environment.names ↔ name ∈ r.environment.names ∨ name ∈ Table.names templates) := by
  induction templates with
  | nil =>
    intro r h
    cases h
    simp [Table.names]
  | cons entry templates ih =>
    intro r h
    obtain ⟨key, t⟩ := entry
    change register templates _ = _ at h
    rw [ih h, mem_names_put]
    simp only [Table.names, List.map_cons, List.mem_cons]
    rw [or_comm (a := name = key), or_assoc]

/-- A source that is added is read by the front end of its extensions. -/
theorem add_eq_compile {extension : Option String}
    (hlogical : logicalName r.environment.isFrontEnd name = (logical, extension)) :
    add name source r = compile (r.environment.frontEnd extension) logical source r := by
  simp only [add, bind, EStateM.bind, get, getThe, MonadStateOf.get, EStateM.get, hlogical]

/-- A source that is added with an extension is read by the front end of this extension. -/
theorem addWith_eq_ok {extension : String} (h : addWith name source extension r = .ok ⟨⟩ r') :
    ∃ f, Table.get? (bareExtension extension) r.environment.frontEnds = some f ∧
      compile f (logicalName r.environment.isFrontEnd name).1 source r = .ok ⟨⟩ r' := by
  simp only [addWith, bind, EStateM.bind, get, getThe, MonadStateOf.get, EStateM.get] at h
  cases hf : Table.get? (bareExtension extension) r.environment.frontEnds with
  | none =>
    simp only [hf] at h
    cases h
  | some f =>
    simp only [hf] at h
    exact ⟨f, rfl, h⟩

theorem compile_run : compile f logical source r =
    (match (f.parse r.environment.settings logical source).1 with
    | .ok templates => register templates
    | .error fault => throw fault : Update PUnit)
      { r with events := (f.parse r.environment.settings logical source).2.reverse ++ r.events } :=
  rfl

/-- A source that registers something has been compiled. -/
theorem compile_eq_ok (h : compile f logical source r = .ok ⟨⟩ r') :
    ∃ templates events, (f.parse r.environment.settings logical source).1 = .ok templates ∧
      register templates { r with events } = .ok ⟨⟩ r' := by
  rw [compile_run] at h
  cases hparse : (f.parse r.environment.settings logical source).1 with
  | error fault =>
    rw [hparse] at h
    cases h
  | ok templates =>
    rw [hparse] at h
    exact ⟨templates, _, rfl, h⟩

/-- The name is that of a template now, and further names are those before and those of the
definitions of a source. -/
structure Registered (f : FrontEnd) (source name : String) (e e' : Environment) : Prop where
  found : ∃ t, e'.template name = .ok t
  names : ∀ n, n ∈ e'.names ↔ n ∈ e.names ∨ n = name ∨ n ∈ f.defines e.settings source

/-- Compiling registers a source under the name that its front end gives it. -/
theorem compile_registered (h : compile f logical source r = .ok ⟨⟩ r') :
    Registered f source (f.title logical) r.environment r'.environment := by
  obtain ⟨templates, events, hparse, hregister⟩ := compile_eq_ok h
  have hnames : ∀ n, n ∈ r'.environment.names ↔ n ∈ r.environment.names ∨ n = f.title logical ∨
      n ∈ f.defines r.environment.settings source := fun n => by
    rw [mem_names_register hregister, FrontEnd.mem_names_parse hparse]
  exact ⟨mem_names_iff.1 ((hnames _).2 (.inr (.inl rfl))), hnames⟩

/-- A source that is registered under one name is registered under another one if both names were
there before. -/
theorem Registered.iff_mem {e e' : Environment} {title : String} (h : Registered f source title e e')
    (hne : title ≠ name) (hdefines : f.defines e.settings source = []) :
    Registered f source name e e' ↔ name ∈ e.names ∧ title ∈ e.names := by
  have hnames : ∀ n, n ∈ e'.names ↔ n ∈ e.names ∨ n = title := by simpa [hdefines] using h.names
  constructor
  · intro hname
    have hnames' : ∀ n, n ∈ e'.names ↔ n ∈ e.names ∨ n = name := by simpa [hdefines] using hname.names
    refine ⟨?_, ?_⟩
    · exact ((hnames name).1 ((hnames' name).2 (.inr rfl))).resolve_right hne.symm
    · exact ((hnames' title).1 ((hnames title).2 (.inr rfl))).resolve_right hne
  · rintro ⟨hname, htitle⟩
    refine ⟨mem_names_iff.1 ((hnames name).2 (.inl hname)), fun n => ?_⟩
    rw [hnames, hdefines]
    constructor
    · rintro (hn | rfl)
      · exact .inl hn
      · exact .inl htitle
    · rintro (hn | rfl | hn)
      · exact .inl hn
      · exact .inl hname
      · cases hn

/-- A front end has registered a source under its title, and under the logical name of the source if
this is the title, or else if both were names before. -/
structure Titled (f : FrontEnd) (source logical : String) (e e' : Environment) : Prop where
  title : Registered f source (f.title logical) e e'
  logical_iff : Registered f source logical e e' ↔
    (f = .delimited ∨ ¬ Outline.extensionMark <:+: logical.toList) ∨
      logical ∈ e.names ∧ f.title logical ∈ e.names

theorem compile_titled (h : compile f logical source r = .ok ⟨⟩ r') :
    Titled f source logical r.environment r'.environment := by
  have hregistered := compile_registered h
  refine ⟨hregistered, ?_⟩
  rw [← FrontEnd.title_eq_self_iff]
  by_cases htitle : f.title logical = logical
  · rw [htitle] at hregistered
    exact ⟨fun _ => .inl htitle, fun _ => hregistered⟩
  · have hdefines : f.defines r.environment.settings source = [] := by
      cases f with
      | outline => rfl
      | delimited => exact absurd rfl htitle
    rw [hregistered.iff_mem htitle hdefines, or_iff_right htitle]

/-- **What a source is registered under.** Whatever front end reads it, the names afterwards are those
before, the title that the front end gives its logical name, and those of its definitions. The title
is the logical name itself for a delimited source, and for an outline whose logical name does not hold
the extension of outlines any more. For other outlines it is another name, and nothing new is
registered under the logical name. -/
theorem add_titled (name source : String) (r r' : Registry) :
    (add name source r = .ok ⟨⟩ r' →
      Titled (r.environment.frontEnd (logicalName r.environment.isFrontEnd name).2) source
        (logicalName r.environment.isFrontEnd name).1 r.environment r'.environment) ∧
    ∀ extension, addWith name source extension r = .ok ⟨⟩ r' →
      ∃ f, Table.get? (bareExtension extension) r.environment.frontEnds = some f ∧
        Titled f source (logicalName r.environment.isFrontEnd name).1 r.environment
          r'.environment := by
  refine ⟨fun h => ?_, fun extension h => ?_⟩
  · rcases hlogical : logicalName r.environment.isFrontEnd name with ⟨logical, extension⟩
    rw [add_eq_compile hlogical] at h
    exact compile_titled h
  · obtain ⟨f, hf, h⟩ := addWith_eq_ok h
    exact ⟨f, hf, compile_titled h⟩

/-- An outline in a directory whose name holds the extension of outlines is registered without that
extension, so it is not found under its logical name. -/
theorem outline_misnamed_in_directory : ∃ r,
    add "a.bham/page.bham" "%p" { environment := .standard } = .ok ⟨⟩ r ∧
      logicalName Environment.standard.isFrontEnd "a.bham/page.bham" = ("a.bham/page", some "bham") ∧
      r.environment.names = ["a/page"] ∧
      r.environment.template "a.bham/page" = .error (.templateMissing "a.bham/page") :=
  ⟨_, rfl, rfl, rfl, rfl⟩

/-- A source with a definition. -/
def definingSource : String := "a\x7b\x7bdefine `b`\x7d\x7dc\x7b\x7bend\x7d\x7d"

/-- Whether a change goes through. -/
def succeeds {α : Type} : EStateM.Result Fault Registry α → Bool
  | .ok .. => true
  | .error .. => false

theorem exists_of_succeeds {o : EStateM.Result Fault Registry PUnit} (h : succeeds o = true) :
    ∃ r, o = .ok ⟨⟩ r := by
  cases o with
  | ok _ r => exact ⟨r, rfl⟩
  | error => cases h

theorem add_titled_directoryPages :
    (∃ r, add "a.bham/page.bham" "%p" { environment := .standard } = .ok ⟨⟩ r ∧
      Titled .outline "%p" "a.bham/page" .standard r.environment) ∧
    ∃ r, addWith "a.bham/list" definingSource ".tmpl" { environment := .standard } = .ok ⟨⟩ r ∧
      Titled .delimited definingSource "a.bham/list" .standard r.environment := by
  constructor
  · obtain ⟨r, hr⟩ : ∃ r, add "a.bham/page.bham" "%p" { environment := .standard } = .ok ⟨⟩ r :=
      ⟨_, rfl⟩
    have htitled := (add_titled _ _ _ _).1 hr
    have hlogical : logicalName Environment.standard.isFrontEnd "a.bham/page.bham" =
      ("a.bham/page", some "bham") := rfl
    rw [hlogical] at htitled
    exact ⟨r, hr, htitled⟩
  · have hlogical : logicalName Environment.standard.isFrontEnd "a.bham/list" =
      ("a.bham/list", none) := rfl
    obtain ⟨r, hr⟩ : ∃ r, addWith "a.bham/list" definingSource ".tmpl"
        { environment := .standard } = .ok ⟨⟩ r := exists_of_succeeds (by decide +kernel)
    obtain ⟨f, hf, htitled⟩ := (add_titled _ _ _ _).2 _ hr
    cases hf
    rw [hlogical] at htitled
    exact ⟨r, hr, htitled⟩

end Environment

end Stencil
