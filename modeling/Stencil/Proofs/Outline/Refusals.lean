import Stencil.Proofs.Outline.Walk
import Stencil.Proofs.Text.Search

/-!
# The lines that are refused

Whether a line can stand where it does depends on the lines in front of it. An `else` line needs a
branch to go on with; the line of a filter or of a doctype needs one that is known. The lines below a
filter are its body, and are not read at all.

* `InFilter before l` says that the line `l`, behind the lines `before`, is in the body of a filter.
* `TakesElse before p` says that the line `p` is one of a branch that may go on with an `else`.
  `ElseFits before e` says that the `else` line `e` goes on with such a branch, and how.
* `Refused s before l c` says that `l` is refused behind the lines `before`, and why.
* `judged_analyze` is the result: lines have nodes if none of them is refused, and otherwise the first
  that is refused is told.
-/

namespace Stencil.Outline

/-! ## Where a line stands -/

/-- Whether the line starts a filter. -/
def Line.isFilter (l : Line) : Bool := (Text.after? [':'] l.content).isSome

/-- The line `l` is in the body of a filter: it is in the run below the line of one. -/
def InFilter (before : List Line) (l : Line) : Prop :=
  ∃ b f run, before = b ++ f :: run ∧ f.isFilter = true ∧ ∀ m ∈ run ++ [l], f.indent < m.indent

/-- The line `p`, behind the lines `b`, is the last at the level, and since then there were only deeper
lines. -/
def Last (before b : List Line) (p : Line) (level : Nat) : Prop :=
  ∃ run, before = b ++ p :: run ∧ p.indent = level ∧ ∀ m ∈ run, level < m.indent

/-- The line is one of a branch that may go on with an `else` line: a statement with a body, or an `else`
line that goes on with such a statement. -/
inductive TakesElse : List Line → Line → Prop
  | keyword {before : List Line} {p : Line} {k : Keyword} {subject : List Char}
    (hkeyword : p.keyword? = some (k, subject)) (hk : k.takesElse = true) : TakesElse before p
  | chained {before b : List Line} {p e : Line} {k : Keyword} {clause subject : List Char}
    (hlast : Last before b p e.indent) (hp : TakesElse b p)
    (hclause : e.elseClause? e.indent = some clause)
    (hchained : Keyword.chained? clause = some (k, subject)) : TakesElse before e

/-- A branch at the level may go on with an `else` line behind the lines. -/
def Pending (before : List Line) (level : Nat) : Prop :=
  ∃ b p, Last before b p level ∧ TakesElse b p

/-- Why a line cannot stand behind the lines `before`, outside of filters. -/
inductive Refused (s : Settings) (before : List Line) (l : Line) : Cause → Prop
  | strayElse (hfilter : ¬ InFilter before l) (helse : l.isElse = true)
    (hpending : ¬ Pending before l.indent) : Refused s before l .strayElse
  | badElse {clause : List Char} (hfilter : ¬ InFilter before l) (hpending : Pending before l.indent)
    (hclause : l.elseClause? l.indent = some clause) (hblank : Text.isBlank clause = false)
    (hchained : Keyword.chained? clause = none) :
    Refused s before l (.badElse (String.ofList l.statement))
  | unknownFilter {trigger : List Char} (hfilter : ¬ InFilter before l)
    (htrigger : Text.after? [':'] l.content = some trigger)
    (hnone : s.filter? (String.ofList (Text.trim trigger)) = none) :
    Refused s before l (.unknownFilter (String.ofList l.content))
  | unknownDoctype {key : List Char} (hfilter : ¬ InFilter before l)
    (hkey : Text.after? ['!', '!', '!'] l.content = some key)
    (hnone : s.doctype? (String.ofList (Text.trim key)) = none) :
    Refused s before l (.unknownDoctype (String.ofList l.content))

/-! ## The first line that is refused -/

/-- None of the lines is refused behind the lines `before`. -/
def Fine (s : Settings) : List Line → List Line → Prop
  | _, [] => True
  | before, l :: ls => (∀ c, ¬ Refused s before l c) ∧ Fine s (before ++ [l]) ls

/-- The fault is that of the first line that is refused behind the lines `before`. -/
def StopsWith (s : Settings) (f : Fault) : List Line → List Line → Prop
  | _, [] => False
  | before, l :: ls =>
    (∃ c, Refused s before l c ∧ f = Line.fault l.number c) ∨
      (∀ c, ¬ Refused s before l c) ∧ StopsWith s f (before ++ [l]) ls

/-- A value stands for lines none of which is refused, and a fault is that of the first. -/
abbrev Judged (s : Settings) (before ls : List Line) {α : Type} : Except Fault α → Prop :=
  Ends (fun _ => Fine s before ls) (StopsWith s · before ls)

variable {s : Settings} {f : Fault} {before ls ms : List Line} {l : Line}

theorem Fine.append (h : Fine s before ls) (h' : Fine s (before ++ ls) ms) :
    Fine s before (ls ++ ms) := by
  induction ls generalizing before with
  | nil => simpa using h'
  | cons l ls ih => exact ⟨h.1, ih h.2 (by simpa using h')⟩

theorem Fine.of_append (h : Fine s before (ls ++ ms)) : Fine s (before ++ ls) ms := by
  induction ls generalizing before with
  | nil => simpa using h
  | cons l ls ih => simpa using ih h.2

theorem Fine.stopsWith (h : Fine s before ls) (h' : StopsWith s f (before ++ ls) ms) :
    StopsWith s f before (ls ++ ms) := by
  induction ls generalizing before with
  | nil => simpa using h'
  | cons l ls ih => exact .inr ⟨h.1, ih h.2 (by simpa using h')⟩

/-- Further lines make no difference to the first that is refused. -/
theorem StopsWith.append (h : StopsWith s f before ls) (ms : List Line) :
    StopsWith s f before (ls ++ ms) := by
  induction ls generalizing before with
  | nil => exact h.elim
  | cons l ls ih =>
    refine h.imp_right fun h => ⟨h.1, ih h.2⟩

/-- One part of the lines after the other. -/
theorem Judged.andThen {α β : Type} {P : β → Prop} {e : Except Fault α} {k : α → Except Fault β}
    (h : Judged s before ls e)
    (hk : ∀ a, Fine s before ls → Ends P (StopsWith s · (before ++ ls) ms) (k a)) :
    Ends P (StopsWith s · before (ls ++ ms)) (e >>= k) := by
  cases e with
  | error f => exact StopsWith.append h ms
  | ok a => exact (hk a h).mono (fun _ h => h) fun f h' => Fine.stopsWith h h'

theorem Judged.bind {α β : Type} {e : Except Fault α} {k : α → Except Fault β}
    (h : Judged s before ls e) (hk : ∀ a, Judged s (before ++ ls) ms (k a)) :
    Judged s before (ls ++ ms) (e >>= k) :=
  h.andThen fun a hls => Ends.mono (hk a) (fun _ hms => hls.append hms) fun _ h => h

theorem Ends.behind {α : Type} {P : α → Prop} {e : Except Fault α}
    (hl : ∀ c, ¬ Refused s before l c) (h : Ends P (StopsWith s · (before ++ [l]) ls) e) :
    Ends P (StopsWith s · before (l :: ls)) e :=
  h.mono (fun _ h => h) fun _ h => .inr ⟨hl, h⟩

theorem Judged.cons {α : Type} {e : Except Fault α} (hl : ∀ c, ¬ Refused s before l c)
    (h : Judged s (before ++ [l]) ls e) : Judged s before (l :: ls) e :=
  Ends.behind hl (Ends.mono h (fun _ h => ⟨hl, h⟩) fun _ h => h)

/-! ## Lines that are not refused -/

theorem Line.not_isActionable_of_isTag (h : l.isTag = true) : l.isActionable = false := by
  unfold Line.isTag Line.startsIn at h
  unfold Line.isActionable Line.startsIn
  split at h
  · simp only [List.contains_eq_mem, List.mem_cons, List.not_mem_nil, or_false,
      decide_eq_true_eq] at h
    rcases h with rfl | rfl | rfl <;> rfl
  · cases h

theorem Line.isElse_of_elseClause {level : Nat} {clause : List Char}
    (h : l.elseClause? level = some clause) :
    l.isActionable = true ∧ Outline.elseClause? l.statement = some clause ∧ l.isElse = true := by
  unfold Line.elseClause? at h
  split at h
  · next hat =>
    have haction := (Bool.and_eq_true_iff.1 hat).2
    refine ⟨haction, h, ?_⟩
    rw [Line.isElse, haction, h]
    rfl
  · cases h

/-- A line that is not an `else` line is refused only for a filter or a doctype that is not known. -/
theorem not_refused (helse : l.isElse = false)
    (hfilter : ∀ trigger, Text.after? [':'] l.content = some trigger →
      s.filter? (String.ofList (Text.trim trigger)) ≠ none)
    (hdoctype : ∀ key, Text.after? ['!', '!', '!'] l.content = some key →
      s.doctype? (String.ofList (Text.trim key)) ≠ none) (c : Cause) : ¬ Refused s before l c := by
  intro h
  cases h with
  | strayElse _ h => exact Bool.noConfusion (h.symm.trans helse)
  | badElse _ _ h =>
    exact Bool.noConfusion ((Line.isElse_of_elseClause h).2.2.symm.trans helse)
  | unknownFilter _ h hnone => exact hfilter _ h hnone
  | unknownDoctype _ h hnone => exact hdoctype _ h hnone

/-- The beginning of a statement or a tag is not that of a filter or a doctype. -/
theorem not_refused_of_startsIn {cs : List Char} (helse : l.isElse = false) (h : l.startsIn cs = true)
    (hcolon : cs.contains ':' = false) (hmark : cs.contains '!' = false) (c : Cause) :
    ¬ Refused s before l c := by
  refine not_refused helse (fun _ htrigger => ?_) (fun _ hkey => ?_) c
  · rw [after?_of_startsIn h hcolon] at htrigger
    cases htrigger
  · rw [after?_of_startsIn h hmark] at hkey
    cases hkey

/-- An `else` line that goes on with a branch is not refused. -/
theorem not_refused_else {clause : List Char} (hpending : Pending before l.indent)
    (hclause : l.elseClause? l.indent = some clause)
    (htail : Text.isBlank clause = true ∨ Keyword.chained? clause ≠ none) (c : Cause) :
    ¬ Refused s before l c := by
  have haction := (Line.isElse_of_elseClause hclause).1
  intro h
  cases h with
  | strayElse _ _ h => exact h hpending
  | badElse _ _ hclause' hblank hchained =>
    rw [hclause] at hclause'
    cases hclause'
    cases htail with
    | inl h => exact Bool.noConfusion (h.symm.trans hblank)
    | inr h => exact h hchained
  | unknownFilter _ h _ =>
    rw [after?_of_startsIn haction rfl] at h
    cases h
  | unknownDoctype _ h _ =>
    rw [after?_of_startsIn haction rfl] at h
    cases h

/-- A line that stands for itself is refused if its filter or its doctype is not known. -/
theorem judged_line (below : List Line) (hout : ¬ InFilter before l) (helse : l.isElse = false) :
    Ends (fun t => (∀ c, ¬ Refused s before l c) ∧ t.takesLines = l.isFilter)
      (fun f => ∃ c, Refused s before l c ∧ f = Line.fault l.number c) (lineTree s l below) := by
  unfold lineTree Line.isFilter
  split
  · next haction =>
    rw [after?_of_startsIn haction rfl]
    exact ⟨not_refused_of_startsIn helse haction rfl rfl, rfl⟩
  · split
    · next trigger htrigger =>
      rw [htrigger]
      split
      · next f hf =>
        refine ⟨not_refused helse (fun trigger' h => ?_) fun key h => ?_, rfl⟩
        · rw [htrigger] at h
          cases h
          rw [hf]
          exact Option.some_ne_none f
        · rw [Text.after?_eq_some_iff.1 htrigger] at h
          cases h
      · next hnone => exact ⟨_, .unknownFilter hout htrigger hnone, rfl⟩
    · next key hcolon hkey =>
      rw [hcolon]
      split
      · next text htext =>
        refine ⟨not_refused helse (fun trigger h => ?_) fun key' h => ?_, rfl⟩
        · cases hcolon.symm.trans h
        · rw [hkey] at h
          cases h
          rw [htext]
          exact Option.some_ne_none text
      · next hnone => exact ⟨_, .unknownDoctype hout hkey hnone, rfl⟩
    · next hcolon hmark =>
      rw [hcolon]
      refine ⟨not_refused helse (fun _ h => ?_) fun _ h => ?_, rfl⟩
      · cases hcolon.symm.trans h
      · cases hmark.symm.trans h

/-- No line in the body of a filter is refused. -/
theorem fine_body (hl : l.isFilter = true) : ∀ (below run : List Line),
    (∀ m ∈ run ++ below, l.indent < m.indent) → Fine s (before ++ l :: run) below := by
  intro below
  induction below with
  | nil => exact fun _ _ => trivial
  | cons m below ih =>
    intro run h
    have hm : InFilter (before ++ l :: run) m :=
      ⟨before, l, run, rfl, hl, fun x hx => h x (by grind)⟩
    refine ⟨fun c hc => ?_, ?_⟩
    · cases hc with
      | strayElse hout | badElse hout | unknownFilter hout | unknownDoctype hout => exact hout hm
    · have ih := ih (run ++ [m]) (by simpa using h)
      simpa using ih

/-! ## The lines in front of nested lines -/

/-- A line of two stretches is in the second, or the second is behind it. -/
theorem mem_or_of_append_eq {xs ys b run : List Line} {p : Line} (h : xs ++ ys = b ++ p :: run) :
    p ∈ ys ∨ ∃ mid, xs = b ++ p :: mid ∧ run = mid ++ ys := by
  rcases List.append_eq_append_iff.1 h with ⟨c, rfl, rfl⟩ | ⟨c, rfl, hrun⟩
  · exact .inl (by simp)
  · cases c with
    | nil =>
      rw [List.nil_append] at hrun
      exact .inl (hrun ▸ List.mem_cons_self)
    | cons x c =>
      obtain ⟨rfl, rfl⟩ := List.cons.inj hrun
      exact .inr ⟨c, rfl, rfl⟩

/-- Deeper lines do not change which line is the last at a level. -/
theorem last_append_iff {b run : List Line} {p : Line} {level : Nat}
    (hrun : ∀ m ∈ run, level < m.indent) : Last (before ++ run) b p level ↔ Last before b p level := by
  constructor
  · rintro ⟨run', heq, hp, hrun'⟩
    rcases mem_or_of_append_eq heq with hmem | ⟨mid, rfl, rfl⟩
    · exact absurd (hrun p hmem) (by omega)
    · exact ⟨mid, rfl, hp, fun m hm => hrun' m (List.mem_append_left run hm)⟩
  · rintro ⟨run', rfl, hp, hrun'⟩
    refine ⟨run' ++ run, by simp, hp, fun m hm => ?_⟩
    exact (List.mem_append.1 hm).elim (hrun' m) (hrun m)

/-- A line that is not deeper than the level is the last there if it is at the level. -/
theorem last_concat_iff {b : List Line} {p : Line} {level : Nat} (hl : l.indent ≤ level) :
    Last (before ++ [l]) b p level ↔ b = before ∧ p = l ∧ l.indent = level := by
  constructor
  · rintro ⟨run, heq, hp, hrun⟩
    rcases mem_or_of_append_eq heq with hmem | ⟨mid, rfl, rfl⟩
    · obtain rfl := List.mem_singleton.1 hmem
      cases run with
      | nil => exact ⟨(List.append_inj_left' heq rfl).symm, rfl, hp⟩
      | cons m run =>
        have hlast := congrArg List.getLast? heq
        rw [List.getLast?_append, List.getLast?_append, List.getLast?_cons_cons] at hlast
        have hmem : p ∈ m :: run := List.mem_of_getLast? (by simpa using hlast.symm)
        exact absurd (hrun p hmem) (by omega)
    · exact absurd (hrun l (by simp)) (by omega)
  · rintro ⟨rfl, rfl, hlevel⟩
    exact ⟨[], rfl, hlevel, fun _ h => nomatch h⟩

/-- Behind a line and what is deeper than it, a branch at its level can only be its own. -/
theorem pending_concat_iff {level : Nat} (hl : l.indent = level) :
    Pending (before ++ [l]) level ↔ TakesElse before l := by
  simp only [Pending, last_concat_iff (Nat.le_of_eq hl)]
  constructor
  · rintro ⟨b, p, ⟨rfl, rfl, -⟩, h⟩
    exact h
  · exact fun h => ⟨before, l, ⟨rfl, rfl, hl⟩, h⟩

theorem not_pending_concat {level : Nat} (hl : l.indent < level) : ¬ Pending (before ++ [l]) level := by
  rintro ⟨b, p, h, -⟩
  have := ((last_concat_iff (Nat.le_of_lt hl)).1 h).2.2
  omega

theorem pending_append_iff {run : List Line} {level : Nat} (hrun : ∀ m ∈ run, level < m.indent) :
    Pending (before ++ run) level ↔ Pending before level := by
  simp only [Pending, last_append_iff hrun]

/-! ## Branches -/

theorem TakesElse.of_keyword_iff {p : Line} {k : Keyword} {subject : List Char}
    (hkeyword : p.keyword? = some (k, subject)) (helse : p.isElse = false) :
    TakesElse before p ↔ k.takesElse = true := by
  constructor
  · intro h
    cases h with
    | keyword hkeyword' hk =>
      rw [hkeyword] at hkeyword'
      cases hkeyword'
      exact hk
    | chained _ _ hclause _ =>
      exact absurd (Line.isElse_of_elseClause hclause).2.2 (Bool.eq_false_iff.1 helse)
  · exact .keyword hkeyword

/-- An `else` line is not a statement with a body. -/
theorem Line.keyword?_of_isElse (h : l.isElse = true) : l.keyword? = none := by
  obtain ⟨haction, helse⟩ := Bool.and_eq_true_iff.1 h
  obtain ⟨clause, hclause⟩ := Option.isSome_iff_exists.1 helse
  unfold Outline.elseClause? at hclause
  rw [Line.keyword?, if_pos haction]
  cases hafter : Text.after? "else".toList l.statement with
  | none =>
    rw [hafter] at hclause
    cases hclause
  | some rest =>
    rw [Text.after?_eq_some_iff.1 hafter]
    rfl

theorem Keyword.chained?_of_isBlank {clause : List Char} (h : Text.isBlank clause = true) :
    chained? clause = none := by
  rw [chained?, Text.trim_eq_nil_iff.2 h]
  rfl

theorem TakesElse.of_clause_iff {e : Line} {clause : List Char}
    (hclause : e.elseClause? e.indent = some clause) :
    TakesElse before e ↔ Pending before e.indent ∧ Keyword.chained? clause ≠ none := by
  constructor
  · intro h
    cases h with
    | keyword hkeyword =>
      rw [Line.keyword?_of_isElse (Line.isElse_of_elseClause hclause).2.2] at hkeyword
      cases hkeyword
    | chained hlast hp hclause' hchained =>
      rw [hclause] at hclause'
      cases hclause'
      exact ⟨⟨_, _, hlast, hp⟩, hchained ▸ Option.some_ne_none _⟩
  · rintro ⟨⟨b, p, hlast, hp⟩, hchained⟩
    obtain ⟨⟨k, subject⟩, hchained⟩ := Option.ne_none_iff_exists'.1 hchained
    exact .chained hlast hp hclause hchained

/-- Other lines are not of a branch. -/
theorem not_takesElse {p : Line} (helse : p.isElse = false) (hkeyword : p.keyword? = none) :
    ¬ TakesElse before p := by
  intro h
  cases h with
  | keyword h => cases hkeyword.symm.trans h
  | chained _ _ h _ => exact Bool.noConfusion ((Line.isElse_of_elseClause h).2.2.symm.trans helse)

/-! ## Nested lines behind other lines -/

open Nest (Layered linesOf lines_eq)

/-- How nested lines stand behind the lines `before`: if a line that they could be nested below is less
deep than the first of them, it is less deep than all, and none of them is in a filter. -/
structure Stands (before : List Line) (ns : List Nest) : Prop where
  layered : Layered ns
  owners : ∀ b p run, before = b ++ p :: run → (∀ m ∈ run, p.indent < m.indent) →
    ∀ n ∈ ns.head?, p.indent < n.line.indent → ∀ m ∈ ns, p.indent < m.line.indent
  outside : ∀ n ∈ ns.head?, ¬ InFilter before n.line

section

variable {n : Nest} {ns : List Nest}

/-- The trees behind the first one. -/
theorem Stands.tail (h : Stands before (n :: ns)) :
    Stands (before ++ [n.line] ++ linesOf n.nested) ns := by
  have hdeeper := h.layered.1.deeper
  have hhead := h.layered.2.1
  refine ⟨h.layered.2.2, fun b p run heq hrun n' hn' hp => ?_, fun n' hn' => ?_⟩
  · have hle := hhead n' hn'
    rw [List.append_assoc] at heq
    rcases mem_or_of_append_eq heq with hmem | ⟨mid, rfl, rfl⟩
    · rcases List.mem_cons.1 hmem with rfl | hmem
      · omega
      · have := hdeeper p hmem
        omega
    · have hall := h.owners b p mid rfl (fun m hm => hrun m (List.mem_append_left _ hm)) n rfl
        (hrun n.line (by simp))
      exact fun m hm => hall m (List.mem_cons_of_mem n hm)
  · have hle := hhead n' hn'
    rintro ⟨b, f, run, heq, hf, hrun⟩
    rw [List.append_assoc] at heq
    have hf' : f.indent < n'.line.indent := hrun _ (by simp)
    rcases mem_or_of_append_eq heq with hmem | ⟨mid, rfl, rfl⟩
    · rcases List.mem_cons.1 hmem with rfl | hmem
      · omega
      · have := hdeeper f hmem
        omega
    · refine h.outside n rfl ⟨b, f, mid, rfl, hf, fun m hm => ?_⟩
      exact hrun m (by
        simp only [List.mem_append, List.mem_singleton] at hm
        rcases hm with hm | rfl <;> simp [*])

/-- The trees nested below the first line, unless it is a filter. -/
theorem Stands.nested (h : Stands before (n :: ns)) (hn : n.line.isFilter = false) :
    Stands (before ++ [n.line]) n.nested := by
  have hdeeper := h.layered.1.deeper
  have hroots : ∀ m ∈ n.nested, n.line.indent < m.line.indent := fun m hm =>
    hdeeper m.line (Nest.mem_linesOf hm)
  refine ⟨h.layered.1.layered, fun b p run heq hrun n' hn' hp m hm => ?_, fun n' hn' => ?_⟩
  · have hm := hroots m hm
    rcases mem_or_of_append_eq heq with hmem | ⟨mid, rfl, rfl⟩
    · obtain rfl := List.mem_singleton.1 hmem
      exact hm
    · have := hrun n.line (by simp)
      omega
  · rintro ⟨b, f, run, heq, hf, hrun⟩
    rcases mem_or_of_append_eq heq with hmem | ⟨mid, rfl, rfl⟩
    · obtain rfl := List.mem_singleton.1 hmem
      exact Bool.noConfusion (hf.symm.trans hn)
    · exact h.outside n rfl ⟨b, f, mid, rfl, hf, fun m hm => hrun m (List.mem_append_left _ hm)⟩

/-- No branch is left open in front of what is nested below a line. -/
theorem Stands.not_pending_nested (h : Stands before (n :: ns)) :
    ∀ n' ∈ n.nested.head?, ¬ Pending (before ++ [n.line]) n'.line.indent := fun n' hn' =>
  not_pending_concat (h.layered.1.deeper n'.line (Nest.mem_linesOf (List.mem_of_mem_head? hn')))

/-- Behind a tree only the branch of its own line can go on. -/
theorem Stands.pending_tail_iff (h : Stands before (n :: ns)) : ∀ n' ∈ ns.head?,
    (Pending (before ++ [n.line] ++ linesOf n.nested) n'.line.indent ↔
      n'.line.indent = n.line.indent ∧ TakesElse before n.line) := by
  intro n' hn'
  have hle := h.layered.2.1 n' hn'
  rw [pending_append_iff fun m hm => Nat.lt_of_le_of_lt hle (h.layered.1.deeper m hm)]
  rcases Nat.lt_or_eq_of_le hle with hlt | heq
  · rw [pending_append_iff (by simpa using hlt)]
    refine iff_of_false ?_ fun hiff => by omega
    rintro ⟨b, p, ⟨run, rfl, hp, hrun⟩, -⟩
    have := h.owners b p run rfl (hp ▸ hrun) n rfl (hp ▸ hlt) n'
      (List.mem_cons_of_mem n (List.mem_of_mem_head? hn'))
    omega
  · rw [pending_concat_iff heq.symm, and_iff_right heq]

end

/-! ## The judgement of nested lines -/

/-- The first line is not an `else` line that could go on with a branch. -/
def NoElse (before : List Line) (ns : List Nest) : Prop :=
  ∀ n ∈ ns.head?, n.line.isElse = true → ¬ Pending before n.line.indent

/-- The first line can go on with a branch of this keyword at the level, and with no other. -/
def Awaits (before : List Line) (k : Keyword) (level : Nat) (ns : List Nest) : Prop :=
  ∀ n ∈ ns.head?, (Pending before n.line.indent ↔ n.line.indent = level ∧ k.takesElse = true)

theorem Stands.noElse_nested {n : Nest} {ns : List Nest} (h : Stands before (n :: ns)) :
    NoElse (before ++ [n.line]) n.nested := fun n' hn' _ => h.not_pending_nested n' hn'

theorem Stands.noElse_tail {n : Nest} {ns : List Nest} (h : Stands before (n :: ns))
    (hn : ¬ TakesElse before n.line) : NoElse (before ++ [n.line] ++ linesOf n.nested) ns :=
  fun n' hn' _ hpending => hn ((h.pending_tail_iff n' hn').1 hpending).2

theorem Stands.awaits_tail {n : Nest} {ns : List Nest} {k : Keyword} (h : Stands before (n :: ns))
    (hn : TakesElse before n.line ↔ k.takesElse = true) :
    Awaits (before ++ [n.line] ++ linesOf n.nested) k n.line.indent ns := fun n' hn' => by
  rw [h.pending_tail_iff n' hn', hn]

/-- Where a branch could go on and does not, the first line is not an `else` line of it. -/
theorem Awaits.noElse {k : Keyword} {level : Nat} {n : Nest} {ns : List Nest}
    (h : Awaits before k level (n :: ns))
    (hnone : (if k.takesElse then n.line.elseClause? level else none) = none) :
    NoElse before (n :: ns) := by
  rintro n' ⟨⟩ helse hpending
  obtain ⟨hlevel, hk⟩ := (h n rfl).1 hpending
  obtain ⟨haction, hclause⟩ := Bool.and_eq_true_iff.1 helse
  rw [if_pos hk, Line.elseClause?, if_pos (by simp [hlevel, haction])] at hnone
  rw [hnone] at hclause
  cases hclause

theorem not_isFilter_of_startsIn {cs : List Char} (h : l.startsIn cs = true)
    (hcolon : cs.contains ':' = false) : l.isFilter = false := by
  rw [Line.isFilter, after?_of_startsIn h hcolon]
  rfl

/-- A line that is no tag and no branch is judged before what is nested below it. -/
theorem judged_single {n : Nest} {ns : List Nest} {rest : Except Fault (List Tree)}
    (hstands : Stands before (n :: ns)) (hnot : n.line.isElse = false)
    (hcontents : n.line.isFilter = false →
      Judged s (before ++ [n.line]) (linesOf n.nested) (Tree.contents s n))
    (hrest : Judged s (before ++ [n.line] ++ linesOf n.nested) (linesOf ns) rest) :
    Judged s before (n.line :: (linesOf n.nested ++ linesOf ns)) (do
      let t ← lineTree s n.line (linesOf n.nested)
      let inner ← if t.takesLines then pure [] else Tree.contents s n
      let rest ← rest
      return t :: inner ++ rest) := by
  have hline := judged_line (s := s) (linesOf n.nested) (hstands.outside n rfl) hnot
  refine Ends.bind (hline.mono (fun _ h => h) fun f h => .inl h) fun t ht => ?_
  obtain ⟨hfine, htakes⟩ := ht
  refine Judged.cons hfine ?_
  have hbehind : ∀ inner, Judged s (before ++ [n.line] ++ linesOf n.nested) (linesOf ns)
      (rest >>= fun rest => return t :: inner ++ rest) := fun inner =>
    Ends.bind hrest fun rest hrest => hrest
  dsimp only
  split
  · next h =>
    -- What is below a filter is its text, and no line of it is refused.
    refine Judged.bind (e := pure []) ?_ hbehind
    show Fine s (before ++ [n.line]) (linesOf n.nested)
    exact fine_body (htakes ▸ h) _ [] hstands.layered.1.deeper
  · next h => exact Judged.bind (hcontents (htakes ▸ Bool.eq_false_iff.2 h)) hbehind

mutual

theorem judged_contents : ∀ {n : Nest} {before : List Line}, Stands before n.nested →
    NoElse before n.nested → Judged s before (linesOf n.nested) (Tree.contents s n)
  | .mk _ nested, _, hstands, helse => by
    rw [Tree.contents]
    exact judged_ofNests nested hstands helse

/-- **Nested lines have nodes if none of them is refused**, and otherwise the first is told. -/
theorem judged_ofNests : ∀ (ns : List Nest) {before : List Line}, Stands before ns →
    NoElse before ns → Judged s before (linesOf ns) (Tree.ofNests s ns)
  | [], _, _, _ => by
    rw [Tree.ofNests]
    trivial
  | n :: ns, before, hstands, helse => by
    have hcontents := fun hfilter => judged_contents (hstands.nested hfilter) hstands.noElse_nested
    have hrest := judged_ofNests ns hstands.tail
    rw [Tree.ofNests, linesOf, lines_eq, List.cons_append]
    dsimp only
    split
    · next htag =>
      have haction : n.line.isActionable = false := Line.not_isActionable_of_isTag htag
      have hnot : n.line.isElse = false := by rw [Line.isElse, haction, Bool.false_and]
      have hkeyword : n.line.keyword? = none := by rw [Line.keyword?, haction]; rfl
      refine .cons (not_refused_of_startsIn hnot htag rfl rfl) ?_
      refine .bind (hcontents (not_isFilter_of_startsIn htag rfl)) fun inner => ?_
      refine Ends.bind (hrest (hstands.noElse_tail (not_takesElse hnot hkeyword))) fun rest hrest => ?_
      split <;> exact hrest
    · next htag =>
      split
      · next h =>
        exact .inl ⟨_, .strayElse (hstands.outside n rfl) h (helse n rfl h), rfl⟩
      · next h =>
        have hnot : n.line.isElse = false := Bool.eq_false_iff.2 h
        split
        · next k subject hkeyword =>
          have haction : n.line.isActionable = true := by
            unfold Line.keyword? at hkeyword
            split at hkeyword
            · assumption
            · cases hkeyword
          refine .cons (not_refused_of_startsIn hnot haction rfl rfl) ?_
          refine .bind (hcontents (not_isFilter_of_startsIn haction rfl)) fun body => ?_
          refine Ends.bind (judged_otherwise ns k n.line.indent hstands.tail
            (hstands.awaits_tail (TakesElse.of_keyword_iff hkeyword hnot))) fun found hfound => ?_
          cases found with
          | some parts => exact hfound
          | none => exact Ends.bind (hrest hfound) fun rest hrest => hrest
        · next hkeyword =>
          have hrest := hrest (hstands.noElse_tail (not_takesElse hnot hkeyword))
          exact judged_single hstands hnot hcontents hrest

theorem judged_otherwise : ∀ (ns : List Nest) (k : Keyword) (level : Nat) {before : List Line},
    Stands before ns → Awaits before k level ns →
    Ends (fun found => match found with
        | some _ => Fine s before (linesOf ns)
        | none => NoElse before ns)
      (StopsWith s · before (linesOf ns)) (Tree.otherwise? s k level ns)
  | [], _, _, _, _, _ => by
    rw [Tree.otherwise?]
    exact fun _ h => nomatch h
  | n :: ns, k, level, before, hstands, hawaits => by
    have hcontents := fun hfilter => judged_contents (hstands.nested hfilter) hstands.noElse_nested
    have hrest := judged_ofNests ns hstands.tail
    rw [Tree.otherwise?, linesOf, lines_eq, List.cons_append]
    split
    · next hnone => exact hawaits.noElse hnone
    · next clause hclause =>
      obtain ⟨hk, hclause⟩ : k.takesElse = true ∧ n.line.elseClause? level = some clause := by
        split at hclause
        · next hk => exact ⟨hk, hclause⟩
        · cases hclause
      obtain rfl := Line.indent_of_elseClause hclause
      have hpending := (hawaits n rfl).2 ⟨rfl, hk⟩
      have haction := (Line.isElse_of_elseClause hclause).1
      have hcontents := hcontents (not_isFilter_of_startsIn haction rfl)
      have htakes : TakesElse before n.line ↔ _ := TakesElse.of_clause_iff hclause
      split
      · next hblank =>
        have hnone := Keyword.chained?_of_isBlank hblank
        have hfine := not_refused_else (s := s) hpending hclause (.inl hblank)
        refine Ends.behind hfine (hcontents.andThen fun body hbody => ?_)
        exact Ends.bind (hrest (hstands.noElse_tail fun h => (htakes.1 h).2 hnone))
          fun rest hrest => show Fine s before _ from ⟨hfine, hbody.append hrest⟩
      · next hblank =>
        split
        · next hnone =>
          exact .inl ⟨_, .badElse (hstands.outside n rfl) hpending hclause
            (Bool.eq_false_iff.2 hblank) hnone, rfl⟩
        · next k' subject hchained =>
          have hsome : Keyword.chained? clause ≠ none := hchained ▸ Option.some_ne_none _
          have hk' : k'.takesElse = true := (Option.filter_eq_some_iff.1 hchained).2
          have hfine := not_refused_else (s := s) hpending hclause (.inr hsome)
          refine Ends.behind hfine (hcontents.andThen fun body hbody => ?_)
          refine (judged_otherwise ns k' n.line.indent hstands.tail (hstands.awaits_tail
            (iff_of_true (htakes.2 ⟨hpending, hsome⟩) hk'))).bind fun found hfound => ?_
          cases found with
          | some parts => exact ⟨hfine, hbody.append hfound⟩
          | none =>
            exact Ends.bind (hrest hfound) fun rest hrest =>
              show Fine s before _ from ⟨hfine, hbody.append hrest⟩

end

/-- **A list of lines has nodes if none of the lines is refused**, and otherwise the first that is
refused is told. -/
theorem judged_analyze (s : Settings) (ls : List Line) : Judged s [] ls (analyze s ls) := by
  have hstands : Stands [] (Nest.ofLines ls) := by
    refine ⟨Nest.layered_ofLines ls, fun b p run heq => ?_, fun n hn => ?_⟩
    · simp at heq
    · rintro ⟨b, f, run, heq, -⟩
      simp at heq
  have helse : NoElse [] (Nest.ofLines ls) := by
    rintro n - - ⟨b, p, ⟨run, heq, -⟩, -⟩
    simp at heq
  have h := judged_ofNests (s := s) (Nest.ofLines ls) hstands helse
  rwa [Nest.linesOf_ofLines] at h

/-! ## The first fault -/

theorem Fine.not_stopsWith (h : Fine s before ls) : ¬ StopsWith s f before ls := by
  induction ls generalizing before with
  | nil => exact id
  | cons l ls ih =>
    rintro (⟨c, hc, -⟩ | ⟨-, hls⟩)
    · exact h.1 c hc
    · exact ih h.2 hls

theorem analyze_isOk_iff : (∃ ts, analyze s ls = .ok ts) ↔ Fine s [] ls := by
  have h := judged_analyze s ls
  cases hls : analyze s ls with
  | ok ts =>
    rw [hls] at h
    exact iff_of_true ⟨ts, rfl⟩ h
  | error f =>
    rw [hls] at h
    exact iff_of_false (fun ⟨_, h⟩ => nomatch h) fun hfine => hfine.not_stopsWith h

/-- A statement has neither the mark of a filter nor that of a doctype. -/
theorem Line.unmarked (h : l.isActionable = true) :
    Text.after? [':'] l.content = none ∧ Text.after? ['!', '!', '!'] l.content = none :=
  ⟨after?_of_startsIn h rfl _, after?_of_startsIn h rfl _⟩

/-- An `else` line is refused as such. -/
theorem Refused.kind_of_isElse {c : Cause} (h : Refused s before l c) (helse : l.isElse = true) :
    c.kind = .badSyntax := by
  obtain ⟨hcolon, hmark⟩ := Line.unmarked (Bool.and_eq_true_iff.1 helse).1
  cases h with
  | strayElse | badElse => rfl
  | unknownFilter _ h => cases hcolon.symm.trans h
  | unknownDoctype _ h => cases hmark.symm.trans h

/-- A line is refused for one cause. -/
theorem Refused.unique {c c' : Cause} (h : Refused s before l c) (h' : Refused s before l c') :
    c = c' := by
  cases h with
  | strayElse _ helse hpending =>
    obtain ⟨hcolon, hmark⟩ := Line.unmarked (Bool.and_eq_true_iff.1 helse).1
    cases h' with
    | strayElse => rfl
    | badElse _ h => exact absurd h hpending
    | unknownFilter _ h => cases hcolon.symm.trans h
    | unknownDoctype _ h => cases hmark.symm.trans h
  | badElse _ hpending hclause =>
    obtain ⟨hcolon, hmark⟩ := Line.unmarked (Line.isElse_of_elseClause hclause).1
    cases h' with
    | strayElse _ _ h => exact absurd hpending h
    | badElse => rfl
    | unknownFilter _ h => cases hcolon.symm.trans h
    | unknownDoctype _ h => cases hmark.symm.trans h
  | unknownFilter _ htrigger =>
    cases h' with
    | strayElse _ helse =>
      cases (Line.unmarked (Bool.and_eq_true_iff.1 helse).1).1.symm.trans htrigger
    | badElse _ _ h =>
      cases (Line.unmarked (Line.isElse_of_elseClause h).1).1.symm.trans htrigger
    | unknownFilter => rfl
    | unknownDoctype _ h =>
      rw [Text.after?_eq_some_iff.1 htrigger] at h
      cases h
  | unknownDoctype _ hkey =>
    cases h' with
    | strayElse _ helse =>
      cases (Line.unmarked (Bool.and_eq_true_iff.1 helse).1).2.symm.trans hkey
    | badElse _ _ h =>
      cases (Line.unmarked (Line.isElse_of_elseClause h).1).2.symm.trans hkey
    | unknownFilter _ h =>
      rw [Text.after?_eq_some_iff.1 h] at hkey
      cases hkey
    | unknownDoctype => rfl

theorem StopsWith.unique {f' : Fault} (h : StopsWith s f before ls) (h' : StopsWith s f' before ls) :
    f = f' := by
  induction ls generalizing before with
  | nil => exact h.elim
  | cons l ls ih =>
    rcases h with ⟨c, hc, rfl⟩ | ⟨hfine, h⟩
    · rcases h' with ⟨c', hc', rfl⟩ | ⟨hfine, -⟩
      · rw [hc.unique hc']
      · exact absurd hc (hfine c)
    · rcases h' with ⟨c', hc', -⟩ | ⟨-, h'⟩
      · exact absurd hc' (hfine c')
      · exact ih h h'

theorem analyze_eq_error_iff : analyze s ls = .error f ↔ StopsWith s f [] ls := by
  have h := judged_analyze s ls
  cases hls : analyze s ls with
  | ok ts =>
    rw [hls] at h
    exact iff_of_false (fun h => nomatch h) (Fine.not_stopsWith h)
  | error f' =>
    rw [hls] at h
    rw [Except.error.injEq]
    exact ⟨fun h' => h' ▸ h, fun h' => StopsWith.unique h h'⟩

/-- What comes after the first fault makes no difference. -/
theorem analyze_append_error (h : analyze s before = .error f) (after : List Line) :
    analyze s (before ++ after) = .error f :=
  analyze_eq_error_iff.2 ((analyze_eq_error_iff.1 h).append after)

/-! ## The `else` lines that are accepted -/

/-- What stands behind the keyword is not empty. -/
theorem Keyword.chained?_ne_none_iff {clause : List Char} : chained? clause ≠ none ↔
    ∃ (k : Keyword) (operand : List Char),
      k.takesElse = true ∧ operand ≠ [] ∧ Text.trim clause = k.spelling ++ operand := by
  constructor
  · intro h
    obtain ⟨⟨k, subject⟩, h⟩ := Option.ne_none_iff_exists'.1 h
    obtain ⟨hparse, hk⟩ := Option.filter_eq_some_iff.1 h
    obtain ⟨k', -, hafter⟩ := List.exists_of_findSome?_eq_some hparse
    obtain ⟨operand, hoperand, hpair⟩ := Option.map_eq_some_iff.1 hafter
    cases hpair
    have hclause := Text.after?_eq_some_iff.1 hoperand
    refine ⟨k, operand, hk, ?_, hclause⟩
    rintro rfl
    have hspace : k.spelling = k.spelling.dropLast ++ [' '] := by
      cases k <;> rfl
    rw [List.append_nil, hspace, ← Text.trimEnd_trim] at hclause
    exact Bool.noConfusion (Text.isSpace_of_trimEnd hclause)
  · rintro ⟨k, operand, hk, -, hclause⟩
    rw [chained?, hclause]
    cases k with
    | cond | condNot | range => exact Option.some_ne_none _
    | scope => cases hk

/-- An `else` line can stand behind the lines `before`: it follows a branch that may go on with it, and
nothing is left behind the word, or a statement that can be an `else` part, with an operand. -/
structure ElseFits (before : List Line) (e : Line) : Prop where
  pending : Pending before e.indent
  tail : ∃ clause, elseClause? e.statement = some clause ∧ (Text.isBlank clause = true ∨
    ∃ (k : Keyword) (operand : List Char),
      k.takesElse = true ∧ operand ≠ [] ∧ Text.trim clause = k.spelling ++ operand)

/-- The `else` lines that fit are those that are not refused. -/
theorem elseFits_iff {e : Line} (helse : e.isElse = true) (hout : ¬ InFilter before e) :
    ElseFits before e ↔ ∀ c, ¬ Refused s before e c := by
  obtain ⟨haction, hsome⟩ := Bool.and_eq_true_iff.1 helse
  obtain ⟨clause, hclause⟩ := Option.isSome_iff_exists.1 hsome
  have hclause' : e.elseClause? e.indent = some clause := by
    rw [Line.elseClause?, if_pos (by simp [haction]), hclause]
  constructor
  · rintro ⟨hpending, clause', heq, htail⟩
    rw [hclause] at heq
    cases heq
    rw [← Keyword.chained?_ne_none_iff] at htail
    exact not_refused_else hpending hclause' htail
  · intro h
    have hpending : Pending before e.indent :=
      Classical.not_not.1 fun hnot => h _ (.strayElse hout helse hnot)
    refine ⟨hpending, clause, hclause, ?_⟩
    rw [← Keyword.chained?_ne_none_iff]
    cases hblank : Text.isBlank clause with
    | true => exact .inl rfl
    | false => exact .inr fun hnone => h _ (.badElse hout hpending hclause' hblank hnone)

/-- **The nodes account for every line, and `else` lines stand where they belong.** A walk over the nodes
meets the lines in their order. Outside of filters an `else` line is accepted if it fits, and any other
is told with its own number, unless a line in front of it is at fault. -/
theorem analyze_accounts (s : Settings) :
    (∀ ls ts, analyze s ls = .ok ts → Walk s ls [] ts) ∧
      ∀ before e after, e.isElse = true → ¬ InFilter before e →
        (∀ f, analyze s before = .error f → analyze s (before ++ e :: after) = .error f) ∧
          ∀ ts, analyze s before = .ok ts →
            ((∃ us, analyze s (before ++ [e]) = .ok us) ↔ ElseFits before e) ∧
              (¬ ElseFits before e → ∃ c : Cause, c.kind = .badSyntax ∧
                analyze s (before ++ e :: after) = .error (Line.fault e.number c)) := by
  refine ⟨fun ls ts h => walk_analyze h, fun before e after helse hout => ?_⟩
  refine ⟨fun f h => analyze_append_error h _, fun ts hts => ?_⟩
  have hfine : Fine s [] before := analyze_isOk_iff.1 ⟨ts, hts⟩
  rw [elseFits_iff (s := s) helse hout, analyze_isOk_iff]
  refine ⟨⟨fun h => ?_, fun h => hfine.append ⟨h, trivial⟩⟩, fun h => ?_⟩
  · exact h.of_append.1
  · obtain ⟨c, hc⟩ := Classical.not_forall_not.1 h
    exact ⟨c, hc.kind_of_isElse helse,
      analyze_eq_error_iff.2 (hfine.stopsWith (.inl ⟨c, hc, rfl⟩))⟩

/-- A chain is accepted as far as it goes, and an `else` behind `with` is not. -/
theorem analyze_accounts_links :
    (∃ us, analyze .standard [⟨0, "= if x".toList, 1⟩, ⟨1, "a".toList, 2⟩,
        ⟨0, "- else range y".toList, 3⟩] = .ok us) ∧
      ElseFits [⟨0, "= if x".toList, 1⟩, ⟨1, "a".toList, 2⟩] ⟨0, "- else range y".toList, 3⟩ ∧
      ∃ c : Cause, c.kind = .badSyntax ∧ analyze .standard
        [⟨0, "= with x".toList, 1⟩, ⟨0, "= else".toList, 2⟩, ⟨0, ":none".toList, 3⟩] =
          .error (Line.fault 2 c) := by
  have hout : ∀ {before : List Line}, (∀ m ∈ before, m.isFilter = false) → ∀ e, ¬ InFilter before e :=
    fun h e ⟨b, f, run, heq, hf, _⟩ =>
      Bool.noConfusion (hf.symm.trans (h f (heq ▸ List.mem_append_right b List.mem_cons_self)))
  have hchain := ((analyze_accounts .standard).2 [⟨0, "= if x".toList, 1⟩, ⟨1, "a".toList, 2⟩]
    ⟨0, "- else range y".toList, 3⟩ [] rfl (hout (by decide) _)).2
    [.cond ⟨1, 0⟩ false "x".toList [.text ⟨2, 1⟩ "a".toList] []] rfl
  have hstray := ((analyze_accounts .standard).2 [⟨0, "= with x".toList, 1⟩]
    ⟨0, "= else".toList, 2⟩ [⟨0, ":none".toList, 3⟩] rfl (hout (by decide) _)).2
    [.scope ⟨1, 0⟩ "x".toList []] rfl
  have hok : ∃ us, analyze .standard [⟨0, "= if x".toList, 1⟩, ⟨1, "a".toList, 2⟩,
    ⟨0, "- else range y".toList, 3⟩] = .ok us :=
    ⟨[.cond ⟨1, 0⟩ false "x".toList [.text ⟨2, 1⟩ "a".toList] [.range ⟨3, 0⟩ "y".toList [] []]], rfl⟩
  refine ⟨hok, hchain.1.1 hok, hstray.2 fun hfits => ?_⟩
  obtain ⟨us, hus⟩ := hstray.1.2 hfits
  cases hus

end Stencil.Outline
