import Stencil.Proofs.Outline.Walk

/-!
# Brackets and owners

A tag with contents is written as two nodes of one list, with the nodes of its contents between them; a
branch has lists of nodes of its own. In all lists of a tree the tags are balanced, and what stands in a
tag or in a branch is deeper than it.

* `Tree.ListIn ts us` says that `us` is one of the lists of nodes of the tree `ts`.
* `Balanced` says of a list that its tags are balanced, with the contents of a tag deeper than it.
* `Orderly s ls us` says this, says how deep the bodies of the branches in the list are, and names the
  lines of `ls` that are the body of a filter in it.
* `orderly_analyze` is the result: all lists in the nodes of a list of lines are orderly.
-/

namespace Stencil.Outline

namespace Tree

/-- The place of a node. -/
def place : Tree → Place
  | .raw place _ | .text place _ | .statement place _ | .leaf place _ | .opening place _
  | .closing place _ | .cond place .. | .range place .. | .scope place .. | .filter place .. => place

/-- The level of a node. -/
def level (t : Tree) : Nat := t.place.level

/-- Whether a node is one end of a tag with contents. -/
def isBracket : Tree → Bool
  | .opening .. | .closing .. => true
  | _ => false

/-- The body of a branch. -/
def body : Tree → List Tree
  | .cond _ _ _ body _ | .range _ _ body _ | .scope _ _ body => body
  | _ => []

/-- The `else` body of a branch. -/
def otherwise : Tree → List Tree
  | .cond _ _ _ _ otherwise | .range _ _ _ otherwise => otherwise
  | _ => []

/-- The lists of nodes in a tree: the list at the top, and the bodies of the nodes of such lists. -/
inductive ListIn (ts : List Tree) : List Tree → Prop
  | root : ListIn ts ts
  | body {us : List Tree} {t : Tree} (hus : ListIn ts us) (ht : t ∈ us) : ListIn ts t.body
  | otherwise {us : List Tree} {t : Tree} (hus : ListIn ts us) (ht : t ∈ us) : ListIn ts t.otherwise

end Tree

/-- The tags of a list are balanced: the two ends of one have the same place and the same text, and
everything between them is deeper. -/
inductive Balanced : List Tree → Prop
  | nil : Balanced []
  | node {t : Tree} {ts : List Tree} (ht : t.isBracket = false) (hts : Balanced ts) :
    Balanced (t :: ts)
  | pair {place : Place} {tag : List Char} {inner ts : List Tree} (hinner : Balanced inner)
    (hdeeper : ∀ t ∈ inner, place.level < t.level) (hts : Balanced ts) :
    Balanced (.opening place tag :: (inner ++ .closing place tag :: ts))

/-- The `else` body of a branch at a level is deeper than the branch, or it is the branch that an `else`
line goes on with, which is at the same level. -/
def ElseBelow (level : Nat) (otherwise : List Tree) : Prop :=
  (∀ t ∈ otherwise, level < t.level) ∨
    ∃ (k : Keyword) (place : Place) (subject : List Char) (body otherwise' : List Tree),
      otherwise = [k.tree place subject body otherwise'] ∧ k.takesElse = true ∧ place.level = level

/-- The line is the trigger of the filter. -/
def Line.Triggers (s : Settings) (l : Line) (f : Filter) : Prop :=
  ∃ trigger, Text.after? [':'] l.content = some trigger ∧
    s.filter? (String.ofList (Text.trim trigger)) = some f

/-- A filter comes from a line with its trigger and has its body from the lines nested below, each of
which is deep enough for the levels that are taken away from it. -/
def FilterFrom (s : Settings) (ls : List Line) (place : Place) (f : Filter) (body : List Char) : Prop :=
  ∃ before l below behind, ls = before ++ l :: (below ++ behind) ∧ place = l.place ∧ l.Triggers s f ∧
    IsRun l below behind ∧ body = filterBody l.indent below ∧ ∀ m ∈ below, l.indent + 1 ≤ m.indent

/-- What is known of a list of nodes that come from the lines `ls`. -/
structure Orderly (s : Settings) (ls : List Line) (ts : List Tree) : Prop where
  balanced : Balanced ts
  body : ∀ t ∈ ts, ∀ b ∈ t.body, t.level < b.level
  otherwise : ∀ t ∈ ts, ElseBelow t.level t.otherwise
  filters : ∀ place f body, .filter place f body ∈ ts → FilterFrom s ls place f body

namespace Keyword

variable (k : Keyword) (place : Place) (subject : List Char) (body otherwise : List Tree)

@[simp] theorem place_tree : (k.tree place subject body otherwise).place = place := by
  cases k <;> rfl

@[simp] theorem isBracket_tree : (k.tree place subject body otherwise).isBracket = false := by
  cases k <;> rfl

@[simp] theorem body_tree : (k.tree place subject body otherwise).body = body := by
  cases k <;> rfl

theorem otherwise_tree : (k.tree place subject body otherwise).otherwise =
    if k.takesElse then otherwise else [] := by
  cases k <;> rfl

theorem tree_ne_filter (place' : Place) (f : Filter) (text : List Char) :
    k.tree place subject body otherwise ≠ .filter place' f text := by
  cases k <;> exact Tree.noConfusion

end Keyword

variable {s : Settings}

/-! ## The lines of a node -/

/-- A node comes from the line `l`, and from those of the lines behind it that belong to it. -/
inductive Origin (s : Settings) (l : Line) : List Line → Tree → Prop
  | line {rest : List Line} {t : Tree} (hplace : t.place = l.place) (hbody : t.body = [])
    (hother : t.otherwise = []) (hfilter : ∀ place f text, t ≠ .filter place f text) : Origin s l rest t
  | filter {f : Filter} {below rest : List Line} (hf : l.Triggers s f) (hrun : IsRun l below rest) :
    Origin s l (below ++ rest) (.filter l.place f (filterBody l.indent below))
  | branch {k : Keyword} {subject : List Char} {below others rest : List Line}
    {body otherwise : List Tree} (hrun : IsRun l below (others ++ rest))
    (hbody : Walk s below (others ++ rest) body) (hothers : ElsePart s k l.indent others rest otherwise) :
    Origin s l (below ++ (others ++ rest)) (k.tree l.place subject body otherwise)

/-- A node comes from one of the lines `ls`, which stand in front of the lines `behind`. -/
def ComesOf (s : Settings) (ls behind : List Line) (t : Tree) : Prop :=
  ∃ before l rest, ls = before ++ l :: rest ∧ Origin s l (rest ++ behind) t

variable {l : Line} {ls behind : List Line} {t : Tree}

theorem Origin.place_eq {rest : List Line} (h : Origin s l rest t) : t.place = l.place := by
  cases h with
  | line hplace => exact hplace
  | filter => rfl
  | branch => exact Keyword.place_tree ..

theorem Origin.comesOf {rest : List Line} (h : Origin s l (rest ++ behind) t) :
    ComesOf s (l :: rest) behind t := ⟨[], l, rest, rfl, h⟩

theorem ComesOf.after (h : ComesOf s ls behind t) (more : List Line) :
    ComesOf s (more ++ ls) behind t := by
  obtain ⟨before, l, rest, rfl, h⟩ := h
  exact ⟨more ++ before, l, rest, by simp, h⟩

theorem ComesOf.before {more : List Line} (h : ComesOf s ls (more ++ behind) t) :
    ComesOf s (ls ++ more) behind t := by
  obtain ⟨before, l, rest, rfl, h⟩ := h
  exact ⟨before, l, rest ++ more, by simp, by rwa [List.append_assoc]⟩

/-- A node that is walked over comes from one of the lines of the walk. -/
theorem Walk.comesOf : ∀ {ls behind : List Line} {ts : List Tree}, Walk s ls behind ts →
    ∀ t ∈ ts, ComesOf s ls behind t
  | _, _, _, .nil => fun _ h => nomatch h
  | _, _, _, .text _ _ _ _ h | _, _, _, .statement _ _ _ h | _, _, _, .doctype _ _ h
  | _, _, _, .leaf _ _ h => by
    have ih := comesOf h
    exact List.forall_mem_cons.2 ⟨(Origin.line rfl rfl rfl fun _ _ _ => Tree.noConfusion).comesOf,
      fun t ht => (ih t ht).after [_]⟩
  | _, _, _, .filter htrigger hf hrun h => by
    have ih := comesOf h
    refine List.forall_mem_cons.2 ⟨Origin.comesOf ?_, fun t ht => (ih t ht).after (_ :: _)⟩
    rw [List.append_assoc]
    exact .filter ⟨_, htrigger, hf⟩ hrun
  | _, _, _, .tag _ _ _ hinner h => by
    have ihinner := comesOf hinner
    have ih := comesOf h
    refine List.forall_mem_cons.2 ⟨?_, List.forall_mem_append.2 ⟨fun t ht => ?_,
      List.forall_mem_cons.2 ⟨?_, fun t ht => (ih t ht).after (_ :: _)⟩⟩⟩
    · exact (Origin.line rfl rfl rfl fun _ _ _ => Tree.noConfusion).comesOf
    · exact (ihinner t ht).before.after [_]
    · exact (Origin.line rfl rfl rfl fun _ _ _ => Tree.noConfusion).comesOf
  | _, _, _, .branch _ hrun hbody hothers h => by
    have ih := comesOf h
    refine List.forall_mem_cons.2 ⟨Origin.comesOf ?_, fun t ht => ?_⟩
    · rw [List.append_assoc, List.append_assoc]
      exact .branch hrun hbody hothers
    · exact ((ih t ht).after _).after (_ :: _)

theorem ElsePart.comesOf {k : Keyword} {level : Nat} {ts : List Tree}
    (h : ElsePart s k level ls behind ts) : ∀ t ∈ ts, ComesOf s ls behind t := by
  cases h with
  | none => exact fun _ h => nomatch h
  | plain _ _ _ _ h => exact fun t ht => (h.comesOf t ht).after [_]
  | chained _ _ _ _ hrun hbody hothers =>
    rw [List.forall_mem_singleton]
    refine Origin.comesOf ?_
    rw [List.append_assoc]
    exact .branch hrun hbody hothers

/-! ## Levels -/

/-- What is walked over below a line is deeper than the line. -/
theorem IsRun.deeper_nodes {below behind' : List Line} {ts : List Tree}
    (hrun : IsRun l below behind') (h : Walk s below behind ts) : ∀ t ∈ ts, l.place.level < t.level := by
  intro t ht
  obtain ⟨before, m, rest, rfl, horigin⟩ := h.comesOf t ht
  change l.indent < t.place.level
  rw [horigin.place_eq]
  exact hrun.deeper m (by simp)

theorem ElsePart.elseBelow {k : Keyword} {level : Nat} {ts : List Tree}
    (h : ElsePart s k level ls behind ts) : ElseBelow level ts := by
  cases h with
  | none => exact .inl fun _ h => nomatch h
  | plain _ hclause _ hrun h =>
    refine .inl fun t ht => ?_
    rw [← Line.indent_of_elseClause hclause]
    exact hrun.deeper_nodes h t ht
  | chained _ hclause _ hchained _ _ _ =>
    refine .inr ⟨_, _, _, _, _, rfl, ?_, Line.indent_of_elseClause hclause⟩
    exact (Option.filter_eq_some_iff.1 hchained).2

/-- The tags of what is walked over are balanced. -/
theorem Walk.balanced : ∀ {ls behind : List Line} {ts : List Tree}, Walk s ls behind ts →
    Balanced ts
  | _, _, _, .nil => .nil
  | _, _, _, .text _ _ _ _ h | _, _, _, .statement _ _ _ h | _, _, _, .doctype _ _ h
  | _, _, _, .leaf _ _ h | _, _, _, .filter _ _ _ h => .node rfl (balanced h)
  | _, _, _, .tag _ _ hrun hinner h =>
    .pair (balanced hinner) (hrun.deeper_nodes hinner) (balanced h)
  | _, _, _, .branch _ _ _ _ h => .node (Keyword.isBracket_tree ..) (balanced h)

theorem ElsePart.balanced {k : Keyword} {level : Nat} {ts : List Tree}
    (h : ElsePart s k level ls behind ts) : Balanced ts := by
  cases h with
  | none => exact .nil
  | plain _ _ _ _ h => exact h.balanced
  | chained => exact .node (Keyword.isBracket_tree ..) .nil

/-! ## Lists in lists -/

/-- A list of nodes comes from some of the lines, by a walk or as an `else` part. -/
def Met (s : Settings) (all : List Line) (ts : List Tree) : Prop :=
  ∃ before ls behind, all = before ++ (ls ++ behind) ∧
    (Walk s ls behind ts ∨ ∃ k level, ElsePart s k level ls behind ts)

theorem Met.nil (all : List Line) : Met s all [] := ⟨all, [], [], by simp, .inl .nil⟩

theorem Met.comesOf {all : List Line} {ts : List Tree} (h : Met s all ts) :
    ∀ t ∈ ts, ComesOf s all [] t := by
  obtain ⟨before, ls, behind, rfl, h⟩ := h
  have hts : ∀ t ∈ ts, ComesOf s ls (behind ++ []) t := by
    rw [List.append_nil]
    obtain h | ⟨k, level, h⟩ := h
    · exact h.comesOf
    · exact h.comesOf
  exact fun t ht => (hts t ht).before.after before

theorem Met.balanced {all : List Line} {ts : List Tree} (h : Met s all ts) : Balanced ts := by
  obtain ⟨before, ls, behind, rfl, h | ⟨k, level, h⟩⟩ := h
  · exact h.balanced
  · exact h.balanced

/-- The lists of a node come from the lines that the node comes from. -/
theorem ComesOf.met {all : List Line} (h : ComesOf s all [] t) :
    Met s all t.body ∧ Met s all t.otherwise := by
  obtain ⟨before, l, rest, rfl, h⟩ := h
  rw [List.append_nil] at h
  cases h with
  | line _ hbody hother _ =>
    rw [hbody, hother]
    exact ⟨.nil _, .nil _⟩
  | filter => exact ⟨.nil _, .nil _⟩
  | @branch k _ below others rest _ _ _ hbody hothers =>
    rw [Keyword.body_tree, Keyword.otherwise_tree]
    refine ⟨⟨before ++ [l], below, others ++ rest, by simp, .inl hbody⟩, ?_⟩
    split
    · exact ⟨before ++ l :: below, others, rest, by simp, .inr ⟨k, _, hothers⟩⟩
    · exact .nil _

theorem Met.listIn {all : List Line} {ts us : List Tree} (h : Met s all ts)
    (hus : Tree.ListIn ts us) : Met s all us := by
  induction hus with
  | root => exact h
  | body _ ht ih => exact (ih.comesOf _ ht).met.1
  | otherwise _ ht ih => exact (ih.comesOf _ ht).met.2

/-! ## Owners -/

/-- What a branch owns is as deep as it asks for. -/
theorem ComesOf.owns (h : ComesOf s ls behind t) :
    (∀ b ∈ t.body, t.level < b.level) ∧ ElseBelow t.level t.otherwise := by
  obtain ⟨before, l, rest, rfl, h⟩ := h
  generalize rest ++ behind = after at h
  cases h with
  | line _ hbody hother _ =>
    rw [hbody, hother]
    exact ⟨fun _ h => (nomatch h), .inl fun _ h => nomatch h⟩
  | filter => exact ⟨fun _ h => (nomatch h), .inl fun _ h => nomatch h⟩
  | branch hrun hbody hothers =>
    rw [Keyword.body_tree, Keyword.otherwise_tree, Tree.level, Keyword.place_tree]
    refine ⟨hrun.deeper_nodes hbody, ?_⟩
    split
    · exact hothers.elseBelow
    · exact .inl fun _ h => nomatch h

/-- A filter comes from its line and those below it. -/
theorem ComesOf.filterFrom {all : List Line} {place : Place} {f : Filter} {body : List Char}
    (h : ComesOf s all [] (.filter place f body)) : FilterFrom s all place f body := by
  obtain ⟨before, l, rest, rfl, h⟩ := h
  rw [List.append_nil] at h
  generalize ht : Tree.filter place f body = t at h
  cases h with
  | line _ _ _ hfilter => exact absurd ht.symm (hfilter place f body)
  | filter hf hrun =>
    cases ht
    exact ⟨before, l, _, _, rfl, rfl, hf, hrun, rfl, hrun.deeper⟩
  | branch => exact (Keyword.tree_ne_filter _ _ _ _ _ _ _ _ ht.symm).elim

/-- **All lists in the nodes of a list of lines are orderly**: the tags in them are balanced, the bodies
of branches are deeper than these, and so are the lines of the filters. -/
theorem orderly_analyze {ls : List Line} {ts : List Tree} (h : analyze s ls = .ok ts) :
    ∀ us, Tree.ListIn ts us → Orderly s ls us := by
  intro us hus
  have hts : Met s ls ts := ⟨[], ls, [], by simp, .inl (walk_analyze h)⟩
  have hmet := hts.listIn hus
  exact {
    balanced := hmet.balanced
    body := fun t ht => (hmet.comesOf t ht).owns.1
    otherwise := fun t ht => (hmet.comesOf t ht).owns.2
    filters := fun _ _ _ ht => (hmet.comesOf _ ht).filterFrom }

/-- Tags, branches with `else` parts and a filter, at the levels at which they stand. -/
theorem orderly_analyze_nested : ∃ ts,
    analyze .standard [⟨3, "%p".toList, 1⟩, ⟨7, "a".toList, 2⟩, ⟨3, "= if x".toList, 3⟩,
        ⟨9, "b".toList, 4⟩, ⟨3, "- else range y".toList, 5⟩, ⟨4, ":css".toList, 6⟩,
        ⟨6, "c".toList, 7⟩] = .ok ts ∧
      ∀ us, Tree.ListIn ts us → Orderly .standard [⟨3, "%p".toList, 1⟩, ⟨7, "a".toList, 2⟩,
        ⟨3, "= if x".toList, 3⟩, ⟨9, "b".toList, 4⟩, ⟨3, "- else range y".toList, 5⟩,
        ⟨4, ":css".toList, 6⟩, ⟨6, "c".toList, 7⟩] us := by
  have h : analyze .standard [⟨3, "%p".toList, 1⟩, ⟨7, "a".toList, 2⟩, ⟨3, "= if x".toList, 3⟩,
        ⟨9, "b".toList, 4⟩, ⟨3, "- else range y".toList, 5⟩, ⟨4, ":css".toList, 6⟩,
        ⟨6, "c".toList, 7⟩] =
      .ok [.opening ⟨1, 3⟩ "%p".toList, .text ⟨2, 7⟩ "a".toList, .closing ⟨1, 3⟩ "%p".toList,
        .cond ⟨3, 3⟩ false "x".toList [.text ⟨4, 9⟩ "b".toList] [.range ⟨5, 3⟩ "y".toList
          [.filter ⟨6, 4⟩ (.make "css" "<style>" "</style>" id) "  c".toList] []]] := rfl
  exact ⟨_, h, orderly_analyze h⟩

end Stencil.Outline
