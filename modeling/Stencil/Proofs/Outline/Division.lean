import Stencil.Proofs.Outline.Faults
import Stencil.Proofs.Outline.Reading
import Stencil.Proofs.Text.Search

/-!
# The division of a source into lines

A logical line is made of the physical line that it starts on and of those behind it that it goes on
with. Which physical lines start a line depends on all that stands before them, so a source is divided
from its first physical line on: blank ones are passed over, and a line ends where it is not open.

* `Extent` is a piece of the division, `Extent.line` the line that it makes.
* `Division strict physical extents` says that physical lines are divided into these extents. There is
  always one (`exists_division`) and never another (`Division.unique`).
* `Division.sublist` and `Division.covers` say that a division invents nothing and loses blank physical
  lines only.
* `classify_accounts` says what the lines of a source are and when there are none.
-/

namespace Stencil.Outline

open Text (isSpace isBlank trim trimEnd)

namespace Line

/-! ## Joining -/

/-- The characters that a tag or a statement starts with. -/
def signs : List Char := ['%', '.', '#'] ++ ['=', '-']

theorem not_isSpace_of_sign {c : Char} (h : c ∈ signs) : isSpace c = false := by
  have hall : signs.all (fun c => isSpace c == false) = true := by decide
  simpa using List.all_eq_true.1 hall c h

theorem ne_backslash_of_sign {c : Char} (h : c ∈ signs) : c ≠ '\\' := by
  rintro rfl
  revert h
  decide

variable {strict : Bool} {l : Line} {raw : List Char}

/-- A line that is open starts with a sign. -/
theorem exists_sign (h : l.isOpen = true) : ∃ c ∈ signs, ∃ t, l.content = c :: t := by
  have hkind : l.isTag = true ∨ l.isActionable = true := by
    unfold isOpen at h
    simp only [Bool.or_eq_true, Bool.and_eq_true] at h
    exact (h.imp And.left And.left).symm
  unfold isActionable isTag startsIn at hkind
  cases hcontent : l.content with
  | nil => simp [hcontent] at hkind
  | cons c t =>
    simp only [hcontent, List.contains_eq_mem, decide_eq_true_eq] at hkind
    exact ⟨c, List.mem_append.2 hkind, t, rfl⟩

theorem dropBackslash_cons {c : Char} (hc : c ≠ '\\') (s : List Char) :
    dropBackslash (c :: s) = c :: dropBackslash s := by
  cases s with
  | nil => simp [dropBackslash, hc]
  | cons d s =>
    unfold dropBackslash
    rw [List.getLast?_cons_cons]
    split <;> rfl

/-- What a line keeps of the text behind its sign when it is joined. -/
def kept (s : List Char) : List Char := trimEnd (dropBackslash (trimEnd s))

/-- A line that starts with a sign starts with it after it is joined. -/
theorem join_content {c : Char} {t : List Char} (hc : c ∈ signs) (h : l.content = c :: t)
    (raw : List Char) : (l.join raw).content = c :: (kept t ++ ' ' :: trim raw) := by
  have hspace := not_isSpace_of_sign hc
  change trim (dropBackslash (trimEnd l.content)) ++ ' ' :: trim raw = _
  rw [h, Text.trimEnd_cons hspace, dropBackslash_cons (ne_backslash_of_sign hc), trim,
    Text.trimStart_of_not_space _ hspace, Text.trimEnd_cons hspace]
  rfl

theorem startsIn_join (h : l.isOpen = true) (raw : List Char) (cs : List Char) :
    (l.join raw).startsIn cs = l.startsIn cs := by
  obtain ⟨c, hc, t, hcontent⟩ := exists_sign h
  rw [startsIn, startsIn, join_content hc hcontent, hcontent]

/-- The line goes on with each of some physical lines: it is open before each of them. -/
def GoesOn (l : Line) : List (List Char) → Prop
  | [] => True
  | raw :: more => l.isOpen = true ∧ (l.join raw).GoesOn more

theorem GoesOn.startsIn : ∀ {following : List (List Char)} {l : Line}, l.GoesOn following →
    ∀ cs, (following.foldl join l).startsIn cs = l.startsIn cs
  | [], _, _, _ => rfl
  | raw :: _, _, ⟨hopen, h⟩, cs => (h.startsIn cs).trans (startsIn_join hopen raw cs)

/-- A line goes on with no more than the physical lines behind which it is closed. -/
theorem GoesOn.length_le {a b c d : List (List Char)} (hb : l.GoesOn b)
    (ha : (a.foldl join l).isOpen = false ∨ c = []) (h : a ++ c = b ++ d) : b.length ≤ a.length := by
  induction b generalizing l a with
  | nil => exact Nat.zero_le _
  | cons raw b ih =>
    cases a with
    | nil =>
      rcases ha with hclosed | rfl
      · exact absurd hb.1 (by simpa using hclosed)
      · cases h
    | cons raw' a =>
      obtain ⟨rfl, hrest⟩ := List.cons.inj h
      exact Nat.succ_le_succ (ih hb.2 ha hrest)

/-- A line that is closed or has nothing left goes on with these physical lines only. -/
theorem GoesOn.unique {a b c d : List (List Char)} (ha : l.GoesOn a) (hb : l.GoesOn b)
    (hac : (a.foldl join l).isOpen = false ∨ c = []) (hbd : (b.foldl join l).isOpen = false ∨ d = [])
    (h : a ++ c = b ++ d) : a = b :=
  List.append_inj_left h (Nat.le_antisymm (ha.length_le hbd h.symm) (hb.length_le hac h))

/-- A line goes on until it is closed or nothing is left. -/
theorem exists_goesOn (l : Line) (behind : List (List Char)) : ∃ following rest,
    behind = following ++ rest ∧ l.GoesOn following ∧
      ((following.foldl join l).isOpen = false ∨ rest = []) := by
  induction behind generalizing l with
  | nil => exact ⟨[], [], rfl, trivial, .inr rfl⟩
  | cons raw behind ih =>
    cases hopen : l.isOpen with
    | false => exact ⟨[], raw :: behind, rfl, trivial, .inl hopen⟩
    | true =>
      obtain ⟨following, rest, rfl, hgoes, hend⟩ := ih (l.join raw)
      exact ⟨raw :: following, rest, rfl, ⟨hopen, hgoes⟩, hend⟩

theorem foldl_join_indent (following : List (List Char)) (l : Line) :
    (following.foldl join l).indent = l.indent := by
  induction following generalizing l with
  | nil => rfl
  | cons raw following ih => exact ih (l.join raw)

theorem foldl_join_number (following : List (List Char)) (l : Line) :
    (following.foldl join l).number = l.number := by
  induction following generalizing l with
  | nil => rfl
  | cons raw following ih => exact ih (l.join raw)

/-- The indentation of a physical line is all that it starts with of levels. -/
theorem indentation_spec (strict : Bool) (raw : List Char) :
    ∃ margin, raw = margin ++ (indentation strict raw).2 ∧
      Margin strict (indentation strict raw).1 margin ∧
      ∀ unit, Margin strict 1 unit → ¬ unit <+: (indentation strict raw).2 := by
  fun_induction indentation strict raw with
  | case1 s n r heq ih =>
    rw [heq] at ih
    obtain ⟨margin, hs, hmargin, hunit⟩ := ih
    exact ⟨'\t' :: margin, congrArg ('\t' :: ·) hs, .tab hmargin, hunit⟩
  | case2 s hstrict =>
    refine ⟨[], rfl, .none, fun unit h => ?_⟩
    cases h with
    | tab h => simp
    | spaces hloose => exact absurd hstrict (by simp [hloose])
  | case3 s hstrict n r heq ih =>
    rw [heq] at ih
    obtain ⟨margin, hs, hmargin, hunit⟩ := ih
    exact ⟨' ' :: ' ' :: margin, congrArg (' ' :: ' ' :: ·) hs, .spaces (by simpa using hstrict) hmargin,
      hunit⟩
  | case4 s htab hspaces =>
    refine ⟨[], rfl, .none, fun unit h hprefix => ?_⟩
    cases h with
    | tab h =>
      obtain ⟨t, ht⟩ := hprefix
      exact htab _ ht.symm
    | spaces _ h =>
      obtain ⟨t, ht⟩ := hprefix
      exact hspaces _ ht.symm

end Line

/-! ## Extents -/

/-- The physical lines of a logical line. -/
structure Extent where
  /-- The physical line that it starts on. -/
  start : List Char
  /-- The number of this physical line. -/
  number : Nat
  /-- The physical lines behind it that it goes on with. -/
  following : List (List Char)

namespace Extent

variable (strict : Bool) (e : Extent)

/-- The line before it goes on with anything. -/
def first : Line := .start strict e.start e.number

/-- The logical line. -/
def line : Line := e.following.foldl Line.join (e.first strict)

/-- The physical lines with their numbers. -/
def physical : List (List Char × Nat) := (e.start :: e.following).zipIdx e.number

/-- The line is open before each physical line that it goes on with, and closed behind them unless
nothing is left there. -/
structure EndsBefore (behind : List (List Char × Nat)) : Prop where
  goesOn : (e.first strict).GoesOn e.following
  closed : (e.line strict).isOpen = false ∨ behind = []

theorem line_indent : (e.line strict).indent = (e.first strict).indent :=
  Line.foldl_join_indent e.following _

@[simp] theorem line_number : (e.line strict).number = e.number :=
  Line.foldl_join_number e.following _

theorem physical_append (behind : List (List Char × Nat)) : e.physical ++ behind =
    (e.start, e.number) :: (e.following.zipIdx (e.number + 1) ++ behind) := by
  rw [physical, List.zipIdx_cons, List.cons_append]

theorem mem_physical : (e.start, e.number) ∈ e.physical := by
  rw [physical, List.zipIdx_cons]
  exact List.mem_cons_self

variable {strict e}

/-- A line that is neither a tag nor a statement goes on with nothing. -/
theorem following_eq_nil (h : (e.first strict).GoesOn e.following)
    (htag : (e.line strict).isTag = false) (haction : (e.line strict).isActionable = false) :
    e.following = [] := by
  have hfirst : (e.first strict).isOpen = false := by
    unfold Line.isTag at htag
    unfold Line.isActionable at haction
    rw [line, h.startsIn] at htag haction
    simp [Line.isOpen, Line.isActionable, Line.isTag, htag, haction]
  cases hfollowing : e.following with
  | nil => rfl
  | cons raw more =>
    rw [hfollowing] at h
    exact absurd h.1 (by simp [hfirst])

/-- No physical line is one of two extents that stand behind each other. -/
theorem eq_of_mem_physical {es : List Extent} {e e' : Extent} {p : List Char × Nat}
    (hes : es.Pairwise fun e e' => ∀ p ∈ e.physical, ∀ q ∈ e'.physical, p.2 < q.2)
    (he : e ∈ es) (he' : e' ∈ es) (hp : p ∈ e.physical) (hp' : p ∈ e'.physical) : e = e' := by
  induction hes with
  | nil => cases he
  | cons hbehind _ ih =>
    rcases List.mem_cons.1 he with rfl | hmem
    · rcases List.mem_cons.1 he' with rfl | hmem'
      · rfl
      · exact absurd (hbehind e' hmem' p hp p hp') (Nat.lt_irrefl _)
    · rcases List.mem_cons.1 he' with rfl | hmem'
      · exact absurd (hbehind e hmem p hp' p hp) (Nat.lt_irrefl _)
      · exact ih hmem hmem'

/-- Extents that begin the same physical lines and end are the same. -/
theorem EndsBefore.unique {e' : Extent} {behind behind' : List (List Char × Nat)}
    (he : e.EndsBefore strict behind) (he' : e'.EndsBefore strict behind')
    (h : e.physical ++ behind = e'.physical ++ behind') : e = e' := by
  obtain ⟨start, number, following⟩ := e
  obtain ⟨start', number', following'⟩ := e'
  rw [physical_append, physical_append] at h
  obtain ⟨hhead, hrest⟩ := List.cons.inj h
  obtain ⟨rfl, rfl⟩ := Prod.mk.inj hhead
  have hraws : following ++ behind.map Prod.fst = following' ++ behind'.map Prod.fst := by
    simpa using congrArg (List.map Prod.fst) hrest
  have hnil : ∀ {ps : List (List Char × Nat)}, ps = [] → ps.map Prod.fst = [] := by
    rintro _ rfl
    rfl
  obtain rfl := he.goesOn.unique he'.goesOn (he.closed.imp_right hnil)
    (he'.closed.imp_right hnil) hraws
  rfl

/-- Only the line of the last extent can be open. -/
def OnlyLastOpen (strict : Bool) (es : List Extent) : Prop :=
  es.Pairwise fun e _ => (e.line strict).isOpen = false

theorem OnlyLastOpen.split {before after : List Extent} {e : Extent}
    (h : OnlyLastOpen strict (before ++ e :: after)) :
    (∀ e' ∈ before, (e'.line strict).isOpen = false) ∧
      ((e.line strict).isOpen = true → after = []) := by
  obtain ⟨-, hbehind, hacross⟩ := List.pairwise_append.1 h
  refine ⟨fun e' he' => hacross e' he' e List.mem_cons_self, fun hopen => ?_⟩
  refine List.eq_nil_iff_forall_not_mem.2 fun e' he' => ?_
  have hclosed := (List.pairwise_cons.1 hbehind).1 e' he'
  rw [hopen] at hclosed
  cases hclosed

end Extent

/-! ## Divisions -/

/-- Physical lines are divided into logical ones: a blank one starts nothing, and another one starts a
line that ends before the next one starts. -/
inductive Division (strict : Bool) : List (List Char × Nat) → List Extent → Prop
  | nil : Division strict [] []
  | blank {raw : List Char} {number : Nat} {physical : List (List Char × Nat)} {es : List Extent}
    (hblank : isBlank raw = true) (h : Division strict physical es) :
    Division strict ((raw, number) :: physical) es
  | line {e : Extent} {behind : List (List Char × Nat)} {es : List Extent}
    (hblank : isBlank e.start = false) (hends : e.EndsBefore strict behind)
    (h : Division strict behind es) : Division strict (e.physical ++ behind) (e :: es)

variable {strict : Bool} {physical : List (List Char × Nat)} {es : List Extent}

/-- **Physical lines can be divided.** -/
theorem exists_division (strict : Bool) (raws : List (List Char)) (number : Nat) :
    ∃ es, Division strict (raws.zipIdx number) es := by
  induction hlength : raws.length using Nat.strongRecOn generalizing raws number with
  | ind k ih =>
    subst hlength
    cases raws with
    | nil => exact ⟨[], .nil⟩
    | cons raw behind =>
      cases hblank : isBlank raw with
      | true =>
        obtain ⟨es, h⟩ := ih _ (Nat.lt_succ_self _) behind (number + 1) rfl
        exact ⟨es, .blank hblank h⟩
      | false =>
        obtain ⟨following, rest, rfl, hgoes, hend⟩ :=
          (Line.start strict raw number).exists_goesOn behind
        have hshorter : rest.length < (raw :: (following ++ rest)).length := by
          simp only [List.length_cons, List.length_append]
          omega
        obtain ⟨es, h⟩ := ih _ hshorter rest (number + (following.length + 1)) rfl
        let e : Extent := ⟨raw, number, following⟩
        have hphysical : (raw :: (following ++ rest)).zipIdx number =
            e.physical ++ rest.zipIdx (number + (following.length + 1)) := by
          rw [← List.cons_append, List.zipIdx_append]
          rfl
        rw [hphysical]
        exact ⟨e :: es, .line hblank ⟨hgoes, hend.imp_right fun h => by rw [h, List.zipIdx_nil]⟩ h⟩

namespace Division

/-- **Physical lines are divided in one way only.** -/
theorem unique {es' : List Extent} (h : Division strict physical es)
    (h' : Division strict physical es') : es = es' := by
  induction h generalizing es' with
  | nil =>
    generalize hphysical : ([] : List (List Char × Nat)) = physical at h'
    cases h' with
    | nil => rfl
    | blank => cases hphysical
    | line => simp [Extent.physical_append] at hphysical
  | @blank raw number physical es hblank h ih =>
    generalize hphysical : (raw, number) :: physical = physical' at h'
    cases h' with
    | nil => cases hphysical
    | blank _ h' =>
      cases hphysical
      exact ih h'
    | line hblank' _ _ =>
      rw [Extent.physical_append] at hphysical
      cases (List.cons.inj hphysical).1
      rw [hblank'] at hblank
      cases hblank
  | @line e behind es hblank hends h ih =>
    generalize hphysical : e.physical ++ behind = physical' at h'
    cases h' with
    | nil => simp [Extent.physical_append] at hphysical
    | blank hblank' _ =>
      rw [Extent.physical_append] at hphysical
      cases (List.cons.inj hphysical).1
      rw [hblank'] at hblank
      cases hblank
    | line _ hends' h' =>
      obtain rfl := hends.unique hends' hphysical
      exact congrArg _ (ih (List.append_cancel_left hphysical ▸ h'))

/-- The physical lines of the extents are those that were divided, in their order. -/
theorem sublist (h : Division strict physical es) :
    (es.flatMap Extent.physical).Sublist physical := by
  induction h with
  | nil => exact .slnil
  | blank _ _ ih => exact .cons _ ih
  | line _ _ _ ih => exact (List.Sublist.refl _).append ih

/-- Blank lines apart, every physical line is one of an extent. -/
theorem covers (h : Division strict physical es) {p : List Char × Nat} (hp : p ∈ physical)
    (hblank : isBlank p.1 = false) : ∃ e ∈ es, p ∈ e.physical := by
  induction h with
  | nil => cases hp
  | blank hraw _ ih =>
    rcases List.mem_cons.1 hp with rfl | hp
    · simp [hraw] at hblank
    · exact ih hp
  | line _ _ _ ih =>
    rcases List.mem_append.1 hp with hp | hp
    · exact ⟨_, List.mem_cons_self, hp⟩
    · obtain ⟨e, he, hp⟩ := ih hp
      exact ⟨e, List.mem_cons_of_mem _ he, hp⟩

/-- An extent starts on a line that is not blank, and its line ends before what is behind it. -/
theorem of_mem (h : Division strict physical es) {e : Extent} (he : e ∈ es) :
    isBlank e.start = false ∧
      ∃ behind, e.EndsBefore strict behind ∧ e.physical ++ behind <:+ physical := by
  induction h with
  | nil => cases he
  | blank _ _ ih =>
    obtain ⟨hblank, behind, hends, hsuffix⟩ := ih he
    exact ⟨hblank, behind, hends, hsuffix.trans (List.suffix_cons _ _)⟩
  | line hblank hends _ ih =>
    rcases List.mem_cons.1 he with rfl | he
    · exact ⟨hblank, _, hends, List.suffix_rfl⟩
    · obtain ⟨hblank, behind, hends, hsuffix⟩ := ih he
      exact ⟨hblank, behind, hends, hsuffix.trans (List.suffix_append _ _)⟩

/-- Where an extent stands in a source. -/
theorem located {raws : List (List Char)} {n : Nat} (h : Division strict (raws.zipIdx n) es)
    {e : Extent} (he : e ∈ es) : ∃ before behind,
      raws = before ++ e.start :: (e.following ++ behind.map Prod.fst) ∧
        e.number = before.length + n ∧ e.EndsBefore strict behind := by
  obtain ⟨-, behind, hends, done, hdone⟩ := h.of_mem he
  obtain ⟨before, raws, rfl, -, hraws⟩ := List.zipIdx_eq_append_iff.1 hdone.symm
  rw [Extent.physical_append] at hraws
  cases raws with
  | nil => cases hraws
  | cons raw raws =>
    rw [List.zipIdx_cons] at hraws
    obtain ⟨hhead, hrest⟩ := List.cons.inj hraws
    obtain ⟨rfl, hnumber⟩ := Prod.mk.inj hhead
    have hbehind : e.following ++ behind.map Prod.fst = raws := by
      simpa using congrArg (List.map Prod.fst) hrest
    exact ⟨before, behind, by rw [hbehind], by omega, hends⟩

/-- Each extent stands behind the one before it. -/
theorem pairwise (h : Division strict physical es)
    (hphysical : physical.Pairwise fun p q => p.2 < q.2) :
    es.Pairwise fun e e' => ∀ p ∈ e.physical, ∀ q ∈ e'.physical, p.2 < q.2 :=
  (List.pairwise_flatMap.1 (hphysical.sublist h.sublist)).2

theorem onlyLastOpen (h : Division strict physical es) : Extent.OnlyLastOpen strict es := by
  induction h with
  | nil => exact .nil
  | blank _ _ ih => exact ih
  | line _ hends h ih =>
    refine List.pairwise_cons.2 ⟨fun e' he' => hends.closed.resolve_right ?_, ih⟩
    rintro rfl
    rw [h.unique .nil] at he'
    cases he'

end Division

/-! ## Classifying -/

namespace Line

/-- What is read once a physical line has made `l`: more of it, or the line behind it. -/
def resume (strict : Bool) (level : Nat) (l : Line) (physical : List (List Char × Nat)) :
    Except Fault (List Line) :=
  if l.isOpen then ofPhysical strict level (some l) physical
  else (ofPhysical strict l.indent none physical).map (l :: ·)

theorem ofPhysical_cons_of_next? {level number : Nat} {current : Option Line} {raw : List Char}
    {l : Line} (h : next? strict level current raw number = .ok (some l)) :
    ofPhysical strict level current ((raw, number) :: physical) = resume strict level l physical := by
  rw [ofPhysical, h, resume]
  simp only [bind, Except.bind]
  split
  · rfl
  · cases ofPhysical strict l.indent none physical <;> rfl

/-- A line that goes on with some physical lines is read up to the last of them. -/
theorem resume_following {level : Nat} {following : List (List Char)} :
    ∀ {l : Line} (number : Nat), l.GoesOn following →
      resume strict level l (following.zipIdx number ++ physical) =
        resume strict level (following.foldl join l) physical := by
  induction following with
  | nil => exact fun _ _ => rfl
  | cons raw following ih =>
    rintro l number ⟨hopen, hgoes⟩
    rw [List.zipIdx_cons, List.cons_append, resume, if_pos hopen,
      ofPhysical_cons_of_next? (l := l.join raw) rfl]
    exact ih (number + 1) hgoes

end Line

namespace Extent

variable {level : Nat} {before : List Extent} {e : Extent}

/-- The levels and contents of the lines of extents. -/
def rows (strict : Bool) (es : List Extent) : List (Nat × List Char) :=
  es.map fun e => (e.line strict).row

/-- The level of the last of some extents behind a line at `level`. -/
def levelAfter (strict : Bool) (level : Nat) (es : List Extent) : Nat :=
  es.foldl (fun _ e => (e.line strict).indent) level

theorem steps_cons : Steps level (rows strict (e :: es)) ↔
    (e.line strict).indent ≤ level + 1 ∧ Steps (e.line strict).indent (rows strict es) :=
  .rfl

theorem steps_append : Steps level (rows strict (before ++ es)) ↔
    Steps level (rows strict before) ∧ Steps (levelAfter strict level before) (rows strict es) := by
  induction before generalizing level with
  | nil => simp [rows, Steps, levelAfter]
  | cons e before ih =>
    rw [List.cons_append, steps_cons, steps_cons, ih, and_assoc]
    rfl

/-- Where lines go down more than one level, there is a first one that does. -/
theorem exists_first_overindented (h : ¬ Steps level (rows strict es)) : ∃ before e after,
    es = before ++ e :: after ∧ Steps level (rows strict before) ∧
      ¬ Steps level (rows strict (before ++ [e])) := by
  induction es generalizing level with
  | nil => exact absurd trivial h
  | cons e es ih =>
    by_cases hlevel : (e.line strict).indent ≤ level + 1
    · rw [steps_cons, and_iff_right hlevel] at h
      obtain ⟨before, e', after, rfl, hbefore, hbreak⟩ := ih h
      exact ⟨e :: before, e', after, rfl, ⟨hlevel, hbefore⟩, fun hsteps => hbreak hsteps.2⟩
    · exact ⟨[], e, es, rfl, trivial, fun hsteps => hlevel hsteps.1⟩

/-- What extents behind a line at `level` amount to. -/
def verdict (strict : Bool) (level : Nat) : List Extent → Except Fault (List Line)
  | [] => .ok []
  | e :: es =>
    if level + 1 < (e.line strict).indent then
      .error (Line.fault e.number (.overindented e.number))
    else if (e.line strict).isOpen then .error (Line.fault e.number (.notCompleted e.number))
    else (verdict strict (e.line strict).indent es).map (e.line strict :: ·)

theorem verdict_append (hsteps : Steps level (rows strict before))
    (hclosed : ∀ e ∈ before, (e.line strict).isOpen = false) :
    verdict strict level (before ++ es) =
      (verdict strict (levelAfter strict level before) es).map
        (before.map (Extent.line strict) ++ ·) := by
  induction before generalizing level with
  | nil =>
    change verdict strict level es = (verdict strict level es).map id
    cases verdict strict level es <;> rfl
  | cons e before ih =>
    rw [List.forall_mem_cons] at hclosed
    rw [List.cons_append, verdict, if_neg (Nat.not_lt.2 hsteps.1), if_neg (by simp [hclosed.1]),
      ih hsteps.2 hclosed.2]
    change _ = (verdict strict (levelAfter strict (e.line strict).indent before) es).map _
    cases verdict strict (levelAfter strict (e.line strict).indent before) es <;> rfl

/-- Why there are no lines. -/
inductive Rejects (strict : Bool) (level : Nat) (es : List Extent) : Fault → Prop
  /-- The line of an extent is the first that is indented too deep. -/
  | overindented {before after : List Extent} {e : Extent} (hes : es = before ++ e :: after)
    (hbefore : Steps level (rows strict before)) (h : ¬ Steps level (rows strict (before ++ [e]))) :
    Rejects strict level es (Line.fault e.number (.overindented e.number))
  /-- No line is indented too deep, and the last one is still open. -/
  | notCompleted {before : List Extent} {e : Extent} (hes : es = before ++ [e])
    (hsteps : Steps level (rows strict es)) (hopen : (e.line strict).isOpen = true) :
    Rejects strict level es (Line.fault e.number (.notCompleted e.number))

theorem verdict_of_rejects {f : Fault} (hlast : OnlyLastOpen strict es)
    (h : Rejects strict level es f) : verdict strict level es = .error f := by
  cases h with
  | @overindented before after e hes hbefore h =>
    subst hes
    have hlevel : levelAfter strict level before + 1 < (e.line strict).indent := by
      rw [steps_append, and_iff_right hbefore, steps_cons] at h
      exact Nat.not_le.1 fun hle => h ⟨hle, trivial⟩
    rw [verdict_append hbefore hlast.split.1, verdict, if_pos hlevel]
    rfl
  | @notCompleted before e hes hsteps hopen =>
    subst hes
    rw [steps_append] at hsteps
    rw [verdict_append hsteps.1 hlast.split.1, verdict, if_neg (Nat.not_lt.2 hsteps.2.1),
      if_pos hopen]
    rfl

theorem verdict_of_steps (hsteps : Steps level (rows strict es))
    (hclosed : ∀ e ∈ es, (e.line strict).isOpen = false) :
    verdict strict level es = .ok (es.map (Extent.line strict)) := by
  have h : verdict strict level (es ++ []) = _ := verdict_append hsteps hclosed
  rw [List.append_nil] at h
  rw [h, verdict, Except.map, List.append_nil]

/-- There are lines, or there is a reason that there are none. -/
theorem steps_or_rejects (level : Nat) (hlast : OnlyLastOpen strict es) :
    (Steps level (rows strict es) ∧ ∀ e ∈ es, (e.line strict).isOpen = false) ∨
      ∃ f, Rejects strict level es f := by
  by_cases hsteps : Steps level (rows strict es)
  · by_cases hall : ∀ e ∈ es, (e.line strict).isOpen = false
    · exact .inl ⟨hsteps, hall⟩
    · simp only [Classical.not_forall, Bool.not_eq_false, exists_prop] at hall
      obtain ⟨e, he, hopen⟩ := hall
      obtain ⟨before, after, rfl⟩ := List.append_of_mem he
      obtain rfl := hlast.split.2 hopen
      exact .inr ⟨_, .notCompleted rfl hsteps hopen⟩
  · obtain ⟨before, e, after, hes, hbefore, h⟩ := exists_first_overindented hsteps
    exact .inr ⟨_, .overindented hes hbefore h⟩

theorem verdict_eq_ok (hlast : OnlyLastOpen strict es) {ls : List Line} : verdict strict level es = .ok ls ↔
      (Steps level (rows strict es) ∧ ∀ e ∈ es, (e.line strict).isOpen = false) ∧
        ls = es.map (Extent.line strict) := by
  constructor
  · intro h
    rcases steps_or_rejects level hlast with hall | ⟨f, hf⟩
    · rw [verdict_of_steps hall.1 hall.2] at h
      exact ⟨hall, (Except.ok.inj h).symm⟩
    · rw [verdict_of_rejects hlast hf] at h
      cases h
  · rintro ⟨hall, rfl⟩
    exact verdict_of_steps hall.1 hall.2

theorem verdict_eq_error (hlast : OnlyLastOpen strict es) {f : Fault} :
    verdict strict level es = .error f ↔ Rejects strict level es f := by
  refine ⟨fun h => ?_, verdict_of_rejects hlast⟩
  rcases steps_or_rejects level hlast with hall | ⟨f', hf'⟩
  · rw [verdict_of_steps hall.1 hall.2] at h
    cases h
  · rw [verdict_of_rejects hlast hf'] at h
    exact Except.error.inj h ▸ hf'

end Extent

namespace Line

/-- The lines of physical lines are read extent by extent. -/
theorem ofPhysical_division (h : Division strict physical es) :
    ∀ level, ofPhysical strict level none physical = Extent.verdict strict level es := by
  induction h with
  | nil => exact fun _ => rfl
  | @blank raw number physical es hblank h ih =>
    intro level
    rw [ofPhysical]
    simp only [next?, hblank, if_true, bind, Except.bind, pure, Except.pure]
    exact ih level
  | @line e behind es hblank hends h ih =>
    intro level
    have hindent : (indentation strict e.start).1 = (e.line strict).indent :=
      (e.line_indent strict).symm
    rw [Extent.physical_append, Extent.verdict]
    split
    · next hlevel =>
      rw [ofPhysical]
      simp only [next?, hblank, hindent, hlevel, if_true, Bool.false_eq_true, if_false]
      rfl
    · next hlevel =>
      have hnext : next? strict level none e.start e.number = .ok (some (e.first strict)) := by
        simp only [next?, hblank, hindent, hlevel, Bool.false_eq_true, if_false]
        rw [← hindent]
        rfl
      rw [ofPhysical_cons_of_next? hnext, resume_following _ hends.goesOn]
      change resume strict level (e.line strict) behind = _
      rw [resume]
      split
      · next hopen =>
        obtain rfl := hends.closed.resolve_left (by simp [hopen])
        rw [ofPhysical, e.line_number]
        rfl
      · rw [ih]

end Line

/-! ## Sources -/

/-- The physical lines of a source with their numbers. -/
def numbered (source : List Char) : List (List Char × Nat) := (Text.lines source).zipIdx 1

theorem numbered_increasing (source : List Char) :
    (numbered source).Pairwise fun p q => p.2 < q.2 := by
  have h : ((numbered source).map Prod.snd).Pairwise (· < ·) := by
    rw [numbered, List.zipIdx_map_snd]
    exact List.pairwise_lt_range'
  exact List.pairwise_map.1 h

/-- The lines of a source with these extents. -/
structure Accounts (strict : Bool) (source : List Char) (es : List Extent) (ls : List Line) :
    Prop where
  lines : ls = es.map (Extent.line strict)
  /-- The physical lines of a line stand together in the source. -/
  within : ∀ e ∈ es, e.physical <:+: numbered source
  /-- A line starts on a physical line that is not blank. -/
  starts : ∀ e ∈ es, isBlank e.start = false
  /-- Its level counts all units of indentation at the start of this physical line. -/
  counts : ∀ e ∈ es, ∃ margin text, e.start = margin ++ text ∧
    Margin strict (e.line strict).indent margin ∧ ∀ unit, Margin strict 1 unit → ¬ unit <+: text
  /-- A line goes on where it is open only, and is not open where it ends. -/
  goesOn : ∀ e ∈ es, (e.first strict).GoesOn e.following
  closed : ∀ e ∈ es, (e.line strict).isOpen = false
  /-- A physical line that is not blank is one of one line: the first of them or a later one. -/
  covers : ∀ p ∈ numbered source, isBlank p.1 = false →
    ∃ e ∈ es, p ∈ e.physical ∧ ∀ e' ∈ es, p ∈ e'.physical → e' = e
  /-- Only tags and statements go on. -/
  idle : ∀ e ∈ es, (e.line strict).isTag = false → (e.line strict).isActionable = false →
    e.following = []
  increasing : ls.Pairwise fun l m => l.number < m.number
  steps : Steps 0 (ls.map Line.row)

theorem accounts_of_division {source : List Char} (h : Division strict (numbered source) es)
    (hsteps : Steps 0 (Extent.rows strict es)) (hclosed : ∀ e ∈ es, (e.line strict).isOpen = false) :
    Accounts strict source es (es.map (Extent.line strict)) := by
  have hbehind := h.pairwise (numbered_increasing source)
  have hgoes : ∀ e ∈ es, (e.first strict).GoesOn e.following := fun e he => by
    obtain ⟨-, _, hends, -⟩ := h.of_mem he
    exact hends.goesOn
  refine {
    lines := rfl
    within := fun e he => ?_
    starts := fun e he => (h.of_mem he).1
    counts := fun e _ => ?_
    goesOn := hgoes
    closed := hclosed
    covers := fun p hp hblank => ?_
    idle := fun e he => e.following_eq_nil (hgoes e he)
    increasing := ?_
    steps := by rwa [List.map_map] }
  · obtain ⟨-, _, -, hsuffix⟩ := h.of_mem he
    exact (List.prefix_append _ _).isInfix.trans hsuffix.isInfix
  · rw [e.line_indent]
    obtain ⟨margin, hraw, hmargin, hunit⟩ := Line.indentation_spec strict e.start
    exact ⟨margin, _, hraw, hmargin, hunit⟩
  · obtain ⟨e, he, hpe⟩ := h.covers hp hblank
    refine ⟨e, he, hpe, fun e' he' hpe' => ?_⟩
    exact Extent.eq_of_mem_physical hbehind he' he hpe' hpe
  · refine List.pairwise_map.2 (hbehind.imp fun {e e'} hlt => ?_)
    rw [e.line_number, e'.line_number]
    exact hlt _ e.mem_physical _ e'.mem_physical

namespace Line

/-- **The lines of a source account for it**: it is divided in one way, and the lines are those of the
extents. There are none exactly if a line is indented too deep, which is told with the first such line,
or else if the last line is not completed. -/
theorem classify_accounts (strict : Bool) (source : List Char) :
    ∃ es, (∀ es', Division strict (numbered source) es' ↔ es' = es) ∧
      (∀ ls, classify strict source = .ok ls ↔ Accounts strict source es ls) ∧
      ∀ f, classify strict source = .error f ↔ Extent.Rejects strict 0 es f := by
  obtain ⟨es, h⟩ := exists_division strict (Text.lines source) 1
  have hclassify : classify strict source = Extent.verdict strict 0 es := ofPhysical_division h 0
  refine ⟨es, fun es' => ⟨fun h' => h'.unique h, fun heq => heq ▸ h⟩, fun ls => ?_, fun f => ?_⟩
  · rw [hclassify, Extent.verdict_eq_ok h.onlyLastOpen]
    constructor
    · rintro ⟨⟨hsteps, hclosed⟩, rfl⟩
      exact accounts_of_division h hsteps hclosed
    · rintro haccounts
      obtain rfl := haccounts.lines
      have hsteps := haccounts.steps
      rw [List.map_map] at hsteps
      exact ⟨⟨hsteps, haccounts.closed⟩, rfl⟩
  · rw [hclassify, Extent.verdict_eq_error h.onlyLastOpen]

end Line

end Stencil.Outline
