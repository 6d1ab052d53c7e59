import Stencil.Environment.Name

/-!
# Logical names

A logical name is a path without the extensions of front ends, so there is nothing more to take out of
it.

* `PathParts` are a directory, a stem and what stands between the dots behind it;
  `PathParts.exists_text_eq` says that every path is written from such parts.
* `PathParts.logicalName_text` says by the parts of a path what its logical name is: the components that
  name no front end are kept, except for empty ones. `PathParts.logicalName_kept` says that this name is
  its own logical name.
* `ExtensionAt` says where an extension stands in a path, without taking the path apart;
  `PathParts.extensionAt_iff` finds the extensions among the components.
* `logicalName_idempotent` is the main statement.
-/

namespace Stencil

/-! ## Texts between dots -/

/-- The text starts with a dot if with anything. -/
def AtDot (s : List Char) : Prop := ∀ c ∈ s.head?, c = '.'

/-- Components, each behind a dot. -/
def dotted (es : List (List Char)) : List Char := es.flatMap ('.' :: ·)

@[simp] theorem dotted_nil : dotted [] = [] := rfl

@[simp] theorem dotted_cons (e : List Char) (es : List (List Char)) :
    dotted (e :: es) = '.' :: (e ++ dotted es) := rfl

theorem dotted_append (es fs : List (List Char)) : dotted (es ++ fs) = dotted es ++ dotted fs :=
  List.flatMap_append

theorem mem_dotted {es : List (List Char)} {c : Char} :
    c ∈ dotted es ↔ ∃ e ∈ es, c ∈ '.' :: e :=
  List.mem_flatMap

theorem atDot_dotted (es : List (List Char)) : AtDot (dotted es) := by
  intro c hc
  cases es with
  | nil => cases hc
  | cons e es => exact (Option.some.inj hc).symm

/-- A text without a dot is what stands before the first dot. -/
theorem span_dotless {e r : List Char} (he : '.' ∉ e) (hr : AtDot r) :
    (e ++ r).takeWhile (· ≠ '.') = e ∧ (e ++ r).dropWhile (· ≠ '.') = r := by
  have hall : ∀ c ∈ e, decide (c ≠ '.') = true := fun c hc =>
    decide_eq_true fun heq => he (heq ▸ hc)
  rw [List.takeWhile_append_of_pos hall, List.dropWhile_append_of_pos hall]
  cases r with
  | nil => exact ⟨List.append_nil e, rfl⟩
  | cons c r =>
    obtain rfl := hr c rfl
    exact ⟨List.append_nil e, rfl⟩

theorem dotless_append_inj {e f r r' : List Char} (he : '.' ∉ e) (hf : '.' ∉ f) (hr : AtDot r)
    (hr' : AtDot r') (h : e ++ r = f ++ r') : e = f ∧ r = r' := by
  obtain rfl : e = f := by rw [← (span_dotless he hr).1, h, (span_dotless hf hr').1]
  exact ⟨rfl, List.append_cancel_left h⟩

/-- Every text is a first component and others behind dots. -/
theorem exists_eq_dotted (s : List Char) : ∃ e es, s = e ++ dotted es ∧ ∀ f ∈ e :: es, '.' ∉ f := by
  induction s with
  | nil => exact ⟨[], [], rfl, by simp⟩
  | cons c s ih =>
    obtain ⟨e, es, rfl, hdotless⟩ := ih
    by_cases hc : c = '.'
    · exact ⟨[], e :: es, by rw [hc]; rfl, List.forall_mem_cons.2 ⟨List.not_mem_nil, hdotless⟩⟩
    · rw [List.forall_mem_cons] at hdotless
      refine ⟨c :: e, es, rfl, List.forall_mem_cons.2 ⟨?_, hdotless.2⟩⟩
      rw [List.mem_cons, not_or]
      exact ⟨Ne.symm hc, hdotless.1⟩

theorem splitDots_append {e : List Char} (he : '.' ∉ e) (current s : List Char) :
    splitDots current (e ++ s) = splitDots (e.reverse ++ current) s := by
  induction e generalizing current with
  | nil => rfl
  | cons c e ih =>
    rw [List.mem_cons, not_or] at he
    rw [List.cons_append, splitDots, if_neg (Ne.symm he.1), ih he.2, List.reverse_cons,
      List.append_assoc]
    rfl

theorem splitDots_dotted {es : List (List Char)} (hes : ∀ e ∈ es, '.' ∉ e) (current : List Char) :
    splitDots current (dotted es) = current.reverse :: es := by
  induction es generalizing current with
  | nil => rfl
  | cons e es ih =>
    rw [List.forall_mem_cons] at hes
    rw [dotted_cons, splitDots, if_pos rfl, splitDots_append hes.1, ih hes.2, List.append_nil,
      List.reverse_reverse]

/-- What stands between a dot and the next one is one of the components. -/
theorem exists_component {e before after : List Char} (he : '.' ∉ e) (hafter : AtDot after)
    {es : List (List Char)} : ∀ {first : List Char}, (∀ f ∈ first :: es, '.' ∉ f) →
      first ++ dotted es = before ++ '.' :: (e ++ after) →
        ∃ fs gs, es = fs ++ e :: gs ∧ before = first ++ dotted fs ∧ after = dotted gs := by
  induction es generalizing before with
  | nil =>
    intro first hdotless h
    refine absurd ?_ (hdotless first List.mem_cons_self)
    rw [dotted_nil, List.append_nil] at h
    simp [h]
  | cons f es ih =>
    intro first hdotless h
    rw [List.forall_mem_cons] at hdotless
    obtain ⟨hfirst, hdotless⟩ := hdotless
    rw [dotted_cons] at h
    -- the dot is the first one, or stands behind it
    rcases List.append_eq_append_iff.1 h with ⟨between, rfl, hdot⟩ | ⟨between, rfl, hdot⟩
    · cases between with
      | nil =>
        obtain ⟨rfl, rfl⟩ := dotless_append_inj (hdotless f List.mem_cons_self) he
          (atDot_dotted es) hafter (List.cons.inj hdot).2
        exact ⟨[], es, rfl, rfl, rfl⟩
      | cons c between =>
        obtain ⟨rfl, hbehind⟩ := List.cons.inj hdot
        obtain ⟨fs, gs, rfl, rfl, rfl⟩ := ih hdotless hbehind
        exact ⟨f :: fs, gs, rfl, rfl, rfl⟩
    · cases between with
      | nil =>
        obtain ⟨rfl, rfl⟩ := dotless_append_inj he (hdotless f List.mem_cons_self) hafter
          (atDot_dotted es) (List.cons.inj hdot).2
        exact ⟨[], es, rfl, by simp, rfl⟩
      | cons c between =>
        obtain ⟨rfl, -⟩ := List.cons.inj hdot
        exact absurd (by simp) hfirst

/-- A component that stands further right in a text is a later one. -/
theorem mem_of_dotted_lt {fs gs fs' gs' : List (List Char)} {e e' : List Char}
    (h : fs ++ e :: gs = fs' ++ e' :: gs') (hlt : (dotted fs).length < (dotted fs').length) :
    e' ∈ gs := by
  rcases List.append_eq_append_iff.1 h with ⟨between, rfl, hbehind⟩ | ⟨between, rfl, -⟩
  · cases between with
    | nil =>
      rw [List.append_nil] at hlt
      exact absurd hlt (Nat.lt_irrefl _)
    | cons f between =>
      obtain ⟨rfl, rfl⟩ := List.cons.inj hbehind
      simp
  · rw [dotted_append, List.length_append] at hlt
    omega

/-! ## The parts of a path -/

/-- A directory with the separator at its end, the stem of a file name, which ends before the first dot
that is not its first character, and the components between the dots behind it. -/
structure PathParts where
  directory : List Char
  stem : List Char
  components : List (List Char)
  directory_ends : ∀ c ∈ directory.getLast?, isSeparator c = true
  stem_named : components ≠ [] → stem ≠ []
  stem_dotless : '.' ∉ stem.tail
  components_dotless : ∀ e ∈ components, '.' ∉ e
  file_named : ∀ c ∈ stem ++ dotted components, isSeparator c = false

namespace PathParts

variable (p : PathParts)

/-- The directory and the stem. -/
def base : List Char := p.directory ++ p.stem

/-- The file name. -/
def file : List Char := p.stem ++ dotted p.components

/-- The path that is written from the parts. -/
def text : List Char := p.directory ++ p.file

/-- The components that count, which are not empty. -/
def extensions : List (List Char) := p.components.filter (!·.isEmpty)

theorem isSeparator_of_mem_file {c : Char} (hc : c ∈ p.file) : isSeparator c = false :=
  p.file_named c hc

theorem components_eq_nil (h : p.stem = []) : p.components = [] :=
  Classical.byContradiction fun hne => p.stem_named hne h

theorem text_eq : p.text = p.base ++ dotted p.components := (List.append_assoc _ _ _).symm

/-- **Every path is written from parts.** -/
theorem exists_text_eq (path : List Char) : ∃ p : PathParts, p.text = path := by
  let isName := fun c => !isSeparator c
  have hpath : (path.reverse.dropWhile isName).reverse ++ (path.reverse.takeWhile isName).reverse =
      path := by
    rw [← List.reverse_append, List.takeWhile_append_dropWhile, List.reverse_reverse]
  have hends : ∀ c ∈ (path.reverse.dropWhile isName).reverse.getLast?, isSeparator c = true := by
    intro c hc
    have hfirst := List.head?_dropWhile_not isName path.reverse
    rw [List.getLast?_reverse] at hc
    simpa [Option.mem_def.1 hc, isName] using hfirst
  have hnamed : ∀ c ∈ (path.reverse.takeWhile isName).reverse, isSeparator c = false := by
    intro c hc
    simpa [isName] using List.all_eq_true.1 List.all_takeWhile c (List.mem_reverse.1 hc)
  generalize (path.reverse.dropWhile isName).reverse = directory at hpath hends
  cases hfile : (path.reverse.takeWhile isName).reverse with
  | nil =>
    rw [hfile] at hpath
    exact ⟨⟨directory, [], [], hends, fun h => absurd rfl h, by simp, by simp, by simp⟩, hpath⟩
  | cons a rest =>
    rw [hfile] at hpath hnamed
    obtain ⟨e, es, rfl, hdotless⟩ := exists_eq_dotted rest
    rw [List.forall_mem_cons] at hdotless
    exact ⟨⟨directory, a :: e, es, hends, fun _ => List.cons_ne_nil a e, hdotless.1, hdotless.2,
      hnamed⟩, hpath⟩

/-- A path is split where its file name starts. -/
theorem splitFile_text : splitFile p.text = (p.directory, p.file) := by
  have hdirectory : (p.directory.reverse.takeWhile fun c => !isSeparator c) = [] := by
    have hends := p.directory_ends
    rw [← List.head?_reverse] at hends
    cases hreverse : p.directory.reverse with
    | nil => rfl
    | cons c r => simp [hends c (by simp [hreverse])]
  have hfile : (p.text.reverse.takeWhile fun c => !isSeparator c) = p.file.reverse := by
    have hall : ∀ c ∈ p.file.reverse, (!isSeparator c) = true := fun c hc => by
      simp [p.isSeparator_of_mem_file (List.mem_reverse.1 hc)]
    rw [text, List.reverse_append, List.takeWhile_append_of_pos hall, hdirectory, List.append_nil]
  have htake : p.text.take (p.text.length - p.file.length) = p.directory := by
    rw [text, List.length_append, Nat.add_sub_cancel, List.take_left]
  unfold splitFile
  rw [hfile, List.reverse_reverse]
  dsimp only
  rw [htake]

/-- A file name is split behind its stem. -/
theorem stem_file : p.file.take 1 ++ (p.file.drop 1).takeWhile (· ≠ '.') = p.stem ∧
    (p.file.drop 1).dropWhile (· ≠ '.') = dotted p.components := by
  cases hstem : p.stem with
  | nil => simp [file, hstem, p.components_eq_nil hstem]
  | cons a e =>
    have hdotless := p.stem_dotless
    rw [hstem] at hdotless
    obtain ⟨htake, hdrop⟩ := span_dotless hdotless (atDot_dotted p.components)
    rw [file, hstem]
    exact ⟨congrArg (a :: ·) htake, hdrop⟩

/-- A path is split into the parts that it is written from. -/
theorem splitExtensions_text : splitExtensions p.text = (p.base, p.extensions) := by
  unfold splitExtensions
  rw [splitFile_text]
  dsimp only
  rw [p.stem_file.1, p.stem_file.2, splitDots_dotted p.components_dotless]
  rfl

end PathParts

/-! ## The logical name -/

variable {isFrontEnd : String → Bool}

/-- Whether a component is the extension of a front end. -/
def namesFrontEnd (isFrontEnd : String → Bool) (e : List Char) : Bool := isFrontEnd (String.ofList e)

theorem addExtensions_eq (name : List Char) (frontEnd : Option String) (es : List (List Char)) :
    addExtensions isFrontEnd name frontEnd es =
      (name ++ dotted (es.filter fun e => !namesFrontEnd isFrontEnd e),
        ((es.filter (namesFrontEnd isFrontEnd)).getLast?.map String.ofList).or frontEnd) := by
  induction es generalizing name frontEnd with
  | nil => simp [addExtensions]
  | cons e es ih =>
    rw [addExtensions]
    split
    · next h =>
      have hnames : namesFrontEnd isFrontEnd e = true := h
      rw [ih, List.filter_cons_of_pos hnames, List.filter_cons_of_neg (by simp [hnames]),
        List.getLast?_cons]
      cases (es.filter (namesFrontEnd isFrontEnd)).getLast? <;> rfl
    · next h =>
      have hnames : ¬ namesFrontEnd isFrontEnd e = true := h
      rw [ih, List.filter_cons_of_neg hnames, List.filter_cons_of_pos (by simp [hnames])]
      simp

namespace PathParts

variable (p : PathParts)

/-- The parts of a path without the extensions of front ends, and without empty components. -/
def kept (isFrontEnd : String → Bool) : PathParts where
  directory := p.directory
  stem := p.stem
  components := p.extensions.filter fun e => !namesFrontEnd isFrontEnd e
  directory_ends := p.directory_ends
  stem_named h := p.stem_named fun hnone => h (by rw [extensions, hnone]; rfl)
  stem_dotless := p.stem_dotless
  components_dotless e he := p.components_dotless e (mem_components he)
  file_named c hc := by
    refine p.file_named c (List.mem_append.2 ((List.mem_append.1 hc).imp_right fun hc => ?_))
    obtain ⟨e, he, hc⟩ := mem_dotted.1 hc
    exact mem_dotted.2 ⟨e, mem_components he, hc⟩
where
  mem_components {e : List Char}
      (he : e ∈ p.extensions.filter fun e => !namesFrontEnd isFrontEnd e) : e ∈ p.components :=
    (List.mem_filter.1 (List.mem_filter.1 he).1).1

/-- **The logical name of a path** keeps it but for the extensions of front ends. The last of these is
the front end. -/
theorem logicalName_text : logicalName isFrontEnd (String.ofList p.text) =
    (String.ofList (p.kept isFrontEnd).text,
      (p.extensions.filter (namesFrontEnd isFrontEnd)).getLast?.map String.ofList) := by
  unfold logicalName
  rw [String.toList_ofList, splitExtensions_text]
  dsimp only
  rw [addExtensions_eq, Option.or_none, text_eq]
  rfl

theorem extensions_kept : (p.kept isFrontEnd).extensions = (p.kept isFrontEnd).components :=
  List.filter_eq_self.2 fun _ he => (List.mem_filter.1 (List.mem_filter.1 he).1).2

theorem not_namesFrontEnd {e : List Char} (he : e ∈ (p.kept isFrontEnd).components) :
    (!namesFrontEnd isFrontEnd e) = true :=
  (List.mem_filter.1 he).2

theorem text_kept_kept : ((p.kept isFrontEnd).kept isFrontEnd).text = (p.kept isFrontEnd).text := by
  have hcomponents : ((p.kept isFrontEnd).kept isFrontEnd).components =
      (p.kept isFrontEnd).components := by
    have hall : ∀ e ∈ (p.kept isFrontEnd).extensions, (!namesFrontEnd isFrontEnd e) = true := by
      rw [extensions_kept]
      exact fun e he => p.not_namesFrontEnd he
    exact (List.filter_eq_self.2 hall).trans p.extensions_kept
  rw [text_eq, text_eq, hcomponents]
  rfl

/-- Nothing is taken out of a logical name. -/
theorem logicalName_kept : logicalName isFrontEnd (String.ofList (p.kept isFrontEnd).text) =
    (String.ofList (p.kept isFrontEnd).text, none) := by
  have hnone : (p.kept isFrontEnd).extensions.filter (namesFrontEnd isFrontEnd) = [] := by
    rw [extensions_kept, List.filter_eq_nil_iff]
    exact fun e he => by simpa using p.not_namesFrontEnd he
  rw [logicalName_text, text_kept_kept, hnone]
  rfl

end PathParts

/-! ## Extensions of a path -/

/-- A text stands in a path as an extension: in the file name, behind a dot that is not the first
character there, and up to the next dot or the end. -/
structure ExtensionAt (path before e after : List Char) : Prop where
  path_eq : path = before ++ '.' :: (e ++ after)
  ne_nil : e ≠ []
  dotless : '.' ∉ e
  after_atDot : AtDot after
  inFile : ∀ c ∈ e ++ after, isSeparator c = false
  behind : ∃ c ∈ before.getLast?, isSeparator c = false

namespace PathParts

variable {p : PathParts} {before e after : List Char}

/-- An extension stands behind the directory. -/
theorem exists_eq_directory_append (h : ExtensionAt p.text before e after) :
    ∃ b, b ≠ [] ∧ before = p.directory ++ b ∧ p.file = b ++ '.' :: (e ++ after) := by
  have hbehind : before ≠ p.directory := by
    rintro rfl
    obtain ⟨c, hc, hfile⟩ := h.behind
    rw [p.directory_ends c hc] at hfile
    cases hfile
  rcases List.append_eq_append_iff.1 h.path_eq with ⟨b, rfl, hfile⟩ | ⟨b, hdirectory, hdot⟩
  · exact ⟨b, fun hb => hbehind (by rw [hb, List.append_nil]), rfl, hfile⟩
  · -- the last character of the directory would stand in the extension or behind it
    have hb : b ≠ [] := fun hb => hbehind (by rw [hdirectory, hb, List.append_nil])
    have hlast : isSeparator (b.getLast hb) = true := by
      apply p.directory_ends
      rw [hdirectory, List.getLast?_append, List.getLast?_eq_some_getLast hb]
      rfl
    have hmem : b.getLast hb ∈ '.' :: (e ++ after) := by
      rw [hdot]
      exact List.mem_append_left _ (List.getLast_mem hb)
    rcases List.mem_cons.1 hmem with hc | hc
    · rw [hc] at hlast
      cases hlast
    · rw [h.inFile _ hc] at hlast
      cases hlast

/-- **The extensions of a path** are those of its components that are not empty. -/
theorem extensionAt_iff : ExtensionAt p.text before e after ↔ ∃ fs gs, p.components = fs ++ e :: gs ∧
    e ≠ [] ∧ before = p.base ++ dotted fs ∧ after = dotted gs := by
  constructor
  · intro h
    obtain ⟨b, hb, rfl, hfile⟩ := exists_eq_directory_append h
    obtain ⟨a, b, rfl⟩ := List.exists_cons_of_ne_nil hb
    cases hstem : p.stem with
    | nil =>
      rw [file, hstem, p.components_eq_nil hstem] at hfile
      cases hfile
    | cons a' first =>
      have hdotless := p.stem_dotless
      rw [hstem, List.tail_cons] at hdotless
      rw [file, hstem] at hfile
      obtain ⟨rfl, hrest⟩ := List.cons.inj hfile
      obtain ⟨fs, gs, hcomponents, rfl, rfl⟩ := exists_component h.dotless h.after_atDot
        (List.forall_mem_cons.2 ⟨hdotless, p.components_dotless⟩) hrest
      exact ⟨fs, gs, hcomponents, h.ne_nil, by simp [base, hstem], rfl⟩
  · rintro ⟨fs, gs, hcomponents, he, rfl, rfl⟩
    have hfile : p.file = (p.stem ++ dotted fs) ++ '.' :: (e ++ dotted gs) := by
      rw [file, hcomponents, dotted_append, dotted_cons, List.append_assoc]
    have hstem : p.stem ++ dotted fs ≠ [] := by
      have hnamed := p.stem_named (by simp [hcomponents])
      simp [hnamed]
    refine ⟨?_, he, p.components_dotless e (by simp [hcomponents]), atDot_dotted gs, ?_, ?_⟩
    · rw [text, hfile, base, List.append_assoc, List.append_assoc, List.append_assoc]
    · refine fun c hc => p.isSeparator_of_mem_file ?_
      rw [hfile]
      exact List.mem_append_right _ (List.mem_cons_of_mem _ hc)
    · refine ⟨(p.stem ++ dotted fs).getLast hstem, ?_, ?_⟩
      · rw [base, List.append_assoc, List.getLast?_append, List.getLast?_eq_some_getLast hstem]
        rfl
      · refine p.isSeparator_of_mem_file ?_
        rw [hfile]
        exact List.mem_append_left _ (List.getLast_mem hstem)

end PathParts

/-- The last extension of a path that is the extension of a front end, if there is one. -/
def LastFrontEnd (isFrontEnd : String → Bool) (path : List Char) : Option String → Prop
  | some extension => ∃ before after, ExtensionAt path before extension.toList after ∧
      isFrontEnd extension = true ∧ ∀ before' e after', ExtensionAt path before' e after' →
        before.length < before'.length → isFrontEnd (String.ofList e) = false
  | none => ∀ before e after, ExtensionAt path before e after → isFrontEnd (String.ofList e) = false

/-- The last element of a list that passes a test. -/
theorem getLast?_filter_eq_some {α : Type} {test : α → Bool} {l : List α} {a : α} :
    (l.filter test).getLast? = some a ↔
      test a = true ∧ ∃ fs gs, l = fs ++ a :: gs ∧ ∀ b ∈ gs, test b = false := by
  rw [List.getLast?_filter, List.find?_eq_some_iff_append]
  refine and_congr_right fun _ => ⟨?_, ?_⟩
  · rintro ⟨gs, fs, hl, hgs⟩
    refine ⟨fs.reverse, gs.reverse, ?_, ?_⟩
    · rw [← List.reverse_reverse l, hl]
      simp
    · simpa using hgs
  · rintro ⟨fs, gs, rfl, hgs⟩
    exact ⟨gs.reverse, fs.reverse, by simp, by simpa using hgs⟩

namespace PathParts

variable (p : PathParts)

theorem lastFrontEnd : LastFrontEnd isFrontEnd p.text
    ((p.extensions.filter (namesFrontEnd isFrontEnd)).getLast?.map String.ofList) := by
  have hfilter : p.extensions.filter (namesFrontEnd isFrontEnd) =
      p.components.filter fun e => namesFrontEnd isFrontEnd e && !e.isEmpty := List.filter_filter
  cases hlast : (p.extensions.filter (namesFrontEnd isFrontEnd)).getLast? with
  | none =>
    intro before e after h
    obtain ⟨fs, gs, hcomponents, he, -, -⟩ := extensionAt_iff.1 h
    have hmem : e ∈ p.extensions := List.mem_filter.2 ⟨by simp [hcomponents], by simpa using he⟩
    have hnone := List.filter_eq_nil_iff.1 (List.getLast?_eq_none_iff.1 hlast) e hmem
    exact Bool.eq_false_iff.2 hnone
  | some e =>
    rw [hfilter, getLast?_filter_eq_some] at hlast
    obtain ⟨htest, fs, gs, hcomponents, hlater⟩ := hlast
    obtain ⟨hnames, hne⟩ := Bool.and_eq_true_iff.1 htest
    refine ⟨p.base ++ dotted fs, dotted gs, ?_, hnames, ?_⟩
    · rw [String.toList_ofList]
      exact extensionAt_iff.2 ⟨fs, gs, hcomponents, by simpa using hne, rfl, rfl⟩
    · intro before' e' after' h hlength
      obtain ⟨fs', gs', hcomponents', hne', rfl, -⟩ := extensionAt_iff.1 h
      have hbehind : e' ∈ gs := by
        refine mem_of_dotted_lt (hcomponents.symm.trans hcomponents') ?_
        simpa only [List.length_append, Nat.add_lt_add_iff_left] using hlength
      simpa [namesFrontEnd, hne'] using hlater e' hbehind

end PathParts

/-- **A logical name is final.** Whatever extensions front ends have, the logical name of a path is its
own logical name, with no extension of a front end left to choose one by. It is in the directory of the
path, and the front end is the last one that the extensions of the path name. -/
theorem logicalName_idempotent (isFrontEnd : String → Bool) (path : String) :
    ∃ name frontEnd, logicalName isFrontEnd path = (name, frontEnd) ∧
      logicalName isFrontEnd name = (name, none) ∧
      (splitFile name.toList).1 = (splitFile path.toList).1 ∧
      LastFrontEnd isFrontEnd path.toList frontEnd := by
  obtain ⟨p, hp⟩ := PathParts.exists_text_eq path.toList
  obtain rfl : path = String.ofList p.text := by rw [hp, String.ofList_toList]
  refine ⟨_, _, p.logicalName_text, p.logicalName_kept, ?_, ?_⟩
  · rw [String.toList_ofList, String.toList_ofList, PathParts.splitFile_text, PathParts.splitFile_text]
    rfl
  · rw [String.toList_ofList]
    exact p.lastFrontEnd

/-- Dots may be repeated, or stand at the start and the end of a file name. -/
example : logicalName (["bham", "tmpl"].contains ·) "a.tmpl/b\\..tmpl..html.bham." =
    ("a.tmpl/b\\..html", some "bham") := by
  decide +kernel

end Stencil
