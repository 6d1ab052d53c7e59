import Stencil.Proofs.Template.Faults
import Stencil.Outline.Tree

/-!
# The lines of a tree

The nodes of an outline come from its lines, each from one of them, and in their order. What is nested
below a line is the run of deeper lines behind it: this is inside a tag, a branch, an `else` part or a
filter, and stands for itself below any other line.

* `IsRun l below behind` says that `below` is the run below `l`, in front of `behind`.
* `Walk s ls behind ts` is a walk over nodes that meets exactly the lines `ls`; `ElsePart` is the part of
  it that a branch goes on with.
* `Nest.layered_ofLines` says that nested lines are runs, and `walk_analyze` that the nodes of a list of
  lines have a walk that meets all of them.
-/

namespace Stencil.Outline

/-! ## Runs -/

/-- The lines `below` are nested below `l`, and no more: in front of the lines `behind` they are the
longest run of lines that are deeper. -/
structure IsRun (l : Line) (below behind : List Line) : Prop where
  deeper : ∀ m ∈ below, l.indent < m.indent
  stops : ∀ m ∈ behind.head?, m.indent ≤ l.indent

/-! ## Walks -/

mutual

/-- A walk over nodes in the order of the document meets exactly these lines, which stand in front of
the lines `behind`. -/
inductive Walk (s : Settings) : List Line → List Line → List Tree → Prop
  | nil {behind : List Line} : Walk s [] behind []
  | text {l : Line} {ls behind : List Line} {ts : List Tree} (htag : l.isTag = false)
    (haction : l.isActionable = false) (hfilter : Text.after? [':'] l.content = none)
    (hdoctype : Text.after? ['!', '!', '!'] l.content = none) (h : Walk s ls behind ts) :
    Walk s (l :: ls) behind (.text l.place l.content :: ts)
  | statement {l : Line} {ls behind : List Line} {ts : List Tree} (haction : l.isActionable = true)
    (helse : l.isElse = false) (hkeyword : l.keyword? = none) (h : Walk s ls behind ts) :
    Walk s (l :: ls) behind (.statement l.place l.statement :: ts)
  | doctype {l : Line} {key : List Char} {text : String} {ls behind : List Line} {ts : List Tree}
    (hkey : Text.after? ['!', '!', '!'] l.content = some key)
    (htext : s.doctype? (String.ofList (Text.trim key)) = some text) (h : Walk s ls behind ts) :
    Walk s (l :: ls) behind (.raw l.place text :: ts)
  /-- A filter is followed by the lines of its body. -/
  | filter {l : Line} {trigger : List Char} {f : Filter} {below ls behind : List Line} {ts : List Tree}
    (htrigger : Text.after? [':'] l.content = some trigger)
    (hf : s.filter? (String.ofList (Text.trim trigger)) = some f) (hrun : IsRun l below (ls ++ behind))
    (h : Walk s ls behind ts) :
    Walk s (l :: (below ++ ls)) behind (.filter l.place f (filterBody l.indent below) :: ts)
  | leaf {l : Line} {ls behind : List Line} {ts : List Tree} (htag : l.isTag = true)
    (hrun : IsRun l [] (ls ++ behind)) (h : Walk s ls behind ts) :
    Walk s (l :: ls) behind (.leaf l.place l.content :: ts)
  /-- The closing node of a tag comes from the same line as the opening one. -/
  | tag {l : Line} {below ls behind : List Line} {inner ts : List Tree} (htag : l.isTag = true)
    (hbelow : below ≠ []) (hrun : IsRun l below (ls ++ behind)) (hinner : Walk s below (ls ++ behind) inner)
    (h : Walk s ls behind ts) :
    Walk s (l :: (below ++ ls)) behind
      (.opening l.place l.content :: (inner ++ .closing l.place l.content :: ts))
  | branch {l : Line} {k : Keyword} {subject : List Char} {below others ls behind : List Line}
    {body otherwise ts : List Tree} (hkeyword : l.keyword? = some (k, subject))
    (hrun : IsRun l below (others ++ (ls ++ behind)))
    (hbody : Walk s below (others ++ (ls ++ behind)) body)
    (hothers : ElsePart s k l.indent others (ls ++ behind) otherwise) (h : Walk s ls behind ts) :
    Walk s (l :: (below ++ (others ++ ls))) behind (k.tree l.place subject body otherwise :: ts)

/-- A walk over the `else` part of a branch at a level: the `else` line stands between the two bodies,
and one that goes on with another branch is the line of that branch. -/
inductive ElsePart (s : Settings) : Keyword → Nat → List Line → List Line → List Tree → Prop
  | none {k : Keyword} {level : Nat} {behind : List Line} : ElsePart s k level [] behind []
  | plain {k : Keyword} {level : Nat} {e : Line} {clause : List Char} {below behind : List Line}
    {ts : List Tree} (hk : k.takesElse = true) (hclause : e.elseClause? level = some clause)
    (hblank : Text.isBlank clause = true) (hrun : IsRun e below behind) (h : Walk s below behind ts) :
    ElsePart s k level (e :: below) behind ts
  | chained {k k' : Keyword} {level : Nat} {e : Line} {clause subject : List Char}
    {below others behind : List Line} {body otherwise : List Tree} (hk : k.takesElse = true)
    (hclause : e.elseClause? level = some clause) (hblank : Text.isBlank clause = false)
    (hchained : Keyword.chained? clause = some (k', subject)) (hrun : IsRun e below (others ++ behind))
    (hbody : Walk s below (others ++ behind) body)
    (hothers : ElsePart s k' e.indent others behind otherwise) :
    ElsePart s k level (e :: (below ++ others)) behind [k'.tree e.place subject body otherwise]

end

/-- An `else` line has the level of its branch. -/
theorem Line.indent_of_elseClause {e : Line} {level : Nat} {clause : List Char}
    (h : e.elseClause? level = some clause) : e.indent = level := by
  unfold Line.elseClause? at h
  split at h
  · next hat =>
    exact of_decide_eq_true (Bool.and_eq_true_iff.1 hat).1
  · cases h

/-- The beginning of a text shows that it does not start with something else. -/
theorem after?_of_startsIn {l : Line} {cs : List Char} {c : Char} (h : l.startsIn cs = true)
    (hc : cs.contains c = false) (needle : List Char) : Text.after? (c :: needle) l.content = none := by
  unfold Line.startsIn at h
  split at h
  · next d content hcontent =>
    rw [hcontent, Text.after?, if_neg]
    rintro rfl
    exact Bool.noConfusion (h.symm.trans hc)
  · cases h

variable {s : Settings}

/-- Walks are joined. -/
theorem Walk.append {ms behind : List Line} {us : List Tree} (h' : Walk s ms behind us) :
    ∀ {ls behind' : List Line} {ts : List Tree}, Walk s ls behind' ts → behind' = ms ++ behind →
      Walk s (ls ++ ms) behind (ts ++ us)
  | _, _, _, .nil, _ => h'
  | _, _, _, .text htag haction hfilter hdoctype h, heq =>
    .text htag haction hfilter hdoctype (append h' h heq)
  | _, _, _, .statement haction helse hkeyword h, heq =>
    .statement haction helse hkeyword (append h' h heq)
  | _, _, _, .doctype hkey htext h, heq => .doctype hkey htext (append h' h heq)
  | _, _, _, .leaf htag hrun h, heq => by
    have ih := append h' h heq
    subst heq
    exact .leaf htag (by simpa using hrun) ih
  | _, _, _, .filter htrigger hf hrun h, heq => by
    have ih := append h' h heq
    subst heq
    simpa using Walk.filter htrigger hf (by simpa using hrun) ih
  | _, _, _, .tag htag hbelow hrun hinner h, heq => by
    have ih := append h' h heq
    subst heq
    simpa using Walk.tag htag hbelow (by simpa using hrun) (by simpa using hinner) ih
  | _, _, _, .branch hkeyword hrun hbody hothers h, heq => by
    have ih := append h' h heq
    subst heq
    simpa using Walk.branch hkeyword (by simpa using hrun) (by simpa using hbody)
      (by simpa using hothers) ih

/-! ## Nested lines -/

namespace Nest

mutual

/-- What is nested below a line is deeper than the line. -/
def Deep : Nest → Prop
  | .mk l nested => (∀ m ∈ linesOf nested, l.indent < m.indent) ∧ Layered nested

/-- Everything nested is deeper, and no tree is deeper than the one in front of it. -/
def Layered : List Nest → Prop
  | [] => True
  | n :: ns => Deep n ∧ (∀ m ∈ ns.head?, m.line.indent ≤ n.line.indent) ∧ Layered ns

end

variable {n : Nest} {ns ms : List Nest}

theorem lines_eq (n : Nest) : lines n = n.line :: linesOf n.nested := by
  cases n
  rfl

theorem Deep.deeper (h : n.Deep) : ∀ m ∈ linesOf n.nested, n.line.indent < m.indent := by
  cases n
  exact h.1

theorem Deep.layered (h : n.Deep) : Layered n.nested := by
  cases n
  exact h.2

/-- The first of some lines is the first line of the first tree. -/
theorem head?_linesOf (ns : List Nest) : (linesOf ns).head? = ns.head?.map line := by
  cases ns with
  | nil => rfl
  | cons n ns => simp [linesOf, lines_eq]

theorem mem_linesOf (h : n ∈ ns) : n.line ∈ linesOf ns := by
  obtain ⟨before, after, rfl⟩ := List.append_of_mem h
  simp [linesOf_append, linesOf, lines_eq]

theorem linesOf_ne_nil (h : ns ≠ []) : linesOf ns ≠ [] := by
  intro hnil
  have hhead := head?_linesOf ns
  rw [hnil] at hhead
  exact h (List.head?_eq_none_iff.1 (Option.map_eq_none_iff.1 hhead.symm))

theorem Layered.of_append (h : Layered (ns ++ ms)) : Layered ns ∧ Layered ms := by
  induction ns with
  | nil => exact ⟨trivial, h⟩
  | cons n ns ih =>
    obtain ⟨hn, hhead, h⟩ := h
    obtain ⟨hns, hms⟩ := ih h
    refine ⟨⟨hn, fun m hm => hhead m ?_, hns⟩, hms⟩
    cases ns with
    | nil => cases hm
    | cons m' ns => exact hm

/-- With all trees everything in them is deeper than a level. -/
theorem Layered.deeper {level : Nat} (h : Layered ns) (hns : ∀ n ∈ ns, level < n.line.indent) :
    ∀ m ∈ linesOf ns, level < m.indent := by
  induction ns with
  | nil => simp [linesOf]
  | cons n ns ih =>
    obtain ⟨hn, -, h⟩ := h
    rw [List.forall_mem_cons] at hns
    simp only [linesOf, lines_eq, List.cons_append, List.forall_mem_cons, List.forall_mem_append]
    exact ⟨hns.1, fun m hm => Nat.lt_trans hns.1 (hn.deeper m hm), ih h hns.2⟩

/-- A line in front of nested lines takes those that are deeper. -/
theorem layered_cons (l : Line) (h : Layered ns) : Layered (cons l ns) := by
  have hsplit : Layered (ns.takeWhile (isBelow l.indent) ++ ns.dropWhile (isBelow l.indent)) := by
    rwa [List.takeWhile_append_dropWhile]
  obtain ⟨htake, hdrop⟩ := hsplit.of_append
  refine ⟨⟨htake.deeper fun n hn => ?_, htake⟩, fun m hm => ?_, hdrop⟩
  · have hbelow := List.all_eq_true.1 List.all_takeWhile n hn
    exact of_decide_eq_true hbelow
  · have hnot := List.head?_dropWhile_not (isBelow l.indent) ns
    rw [hm] at hnot
    change m.line.indent ≤ l.indent
    exact Nat.le_of_not_lt (of_decide_eq_false hnot)

/-- **The nested lines of a list of lines are layered.** -/
theorem layered_ofLines (ls : List Line) : Layered (ofLines ls) := by
  induction ls with
  | nil => trivial
  | cons l ls ih => exact layered_cons l ih

/-- The lines `behind` do not belong below any of the trees. -/
def EndsAt (ns : List Nest) (behind : List Line) : Prop :=
  ∀ n ∈ ns, ∀ m ∈ behind.head?, m.indent ≤ n.line.indent

/-- The lines nested below a line are its run. -/
theorem Layered.run {behind : List Line} (h : Layered (n :: ns)) (hends : EndsAt (n :: ns) behind) :
    IsRun n.line (linesOf n.nested) (linesOf ns ++ behind) := by
  obtain ⟨hn, hhead, -⟩ := h
  refine ⟨hn.deeper, fun m hm => ?_⟩
  rw [List.head?_append, head?_linesOf] at hm
  cases ns with
  | nil => exact hends n List.mem_cons_self m hm
  | cons n' ns =>
    obtain rfl : n'.line = m := by simpa using hm
    exact hhead n' rfl

end Nest

/-- What ends a run ends everything in it. -/
theorem IsRun.endsAt {l : Line} {ns : List Nest} {behind : List Line}
    (h : IsRun l (Nest.linesOf ns) behind) : Nest.EndsAt ns behind := by
  intro n hn m hm
  exact Nat.le_trans (h.stops m hm) (Nat.le_of_lt (h.deeper _ (Nest.mem_linesOf hn)))

/-! ## The walk over the nodes of nested lines -/

open Nest (Layered EndsAt linesOf linesOf_ne_nil lines_eq)

/-- A line that stands for itself is walked over, with what is nested below it behind it. -/
theorem walk_line {l : Line} {below ls behind : List Line} (htag : l.isTag = false)
    (helse : l.isElse = false) (hkeyword : l.keyword? = none) (hrun : IsRun l below (ls ++ behind)) :
    Ends (fun t => ∀ inner rest, (t.takesLines = true → inner = []) →
        (t.takesLines = false → Walk s below (ls ++ behind) inner) → Walk s ls behind rest →
        Walk s (l :: (below ++ ls)) behind (t :: inner ++ rest))
      (fun _ => True) (lineTree s l below) := by
  unfold lineTree
  split
  · next haction =>
    exact fun inner rest _ hinner hrest =>
      .statement haction helse hkeyword (.append hrest (hinner rfl) rfl)
  · next haction =>
    split
    · next trigger htrigger =>
      split
      · next f hf =>
        intro inner rest hnone _ hrest
        rw [hnone rfl]
        exact .filter htrigger hf hrun hrest
      · trivial
    · next key _ hkey =>
      split
      · next text htext =>
        exact fun inner rest _ hinner hrest => .doctype hkey htext (.append hrest (hinner rfl) rfl)
      · trivial
    · next hfilter hdoctype =>
      exact fun inner rest _ hinner hrest => .text htag (Bool.eq_false_iff.2 haction) hfilter hdoctype
        (.append hrest (hinner rfl) rfl)

/-- Such a line with what is nested below it, in front of the lines of other trees. -/
theorem walk_single {n : Nest} {ns : List Nest} {behind : List Line} {rest : Except Fault (List Tree)}
    (htag : n.line.isTag = false) (helse : n.line.isElse = false) (hkeyword : n.line.keyword? = none)
    (hrun : IsRun n.line (linesOf n.nested) (linesOf ns ++ behind))
    (hcontents : Ends (Walk s (linesOf n.nested) (linesOf ns ++ behind)) (fun _ => True)
      (Tree.contents s n))
    (hrest : Ends (Walk s (linesOf ns) behind) (fun _ => True) rest) :
    Ends (Walk s (n.line :: (linesOf n.nested ++ linesOf ns)) behind) (fun _ => True) (do
      let t ← lineTree s n.line (linesOf n.nested)
      let inner ← if t.takesLines then pure [] else Tree.contents s n
      let rest ← rest
      return t :: inner ++ rest) := by
  refine (walk_line htag helse hkeyword hrun).bind fun t ht => ?_
  have hbehind : ∀ inner, (t.takesLines = true → inner = []) →
      (t.takesLines = false → Walk s (linesOf n.nested) (linesOf ns ++ behind) inner) →
      Ends (Walk s (n.line :: (linesOf n.nested ++ linesOf ns)) behind) (fun _ => True)
        (rest >>= fun rest => return t :: inner ++ rest) := fun inner hnone hinner =>
    hrest.bind fun rest hrest => ht inner rest hnone hinner hrest
  dsimp only
  split
  · next htakes => exact hbehind [] (fun _ => rfl) fun h => Bool.noConfusion (htakes.symm.trans h)
  · next htakes =>
    exact hcontents.bind fun inner hinner =>
      hbehind inner (fun h => absurd h htakes) fun _ => hinner

mutual

theorem walk_contents : ∀ {n : Nest} {behind : List Line}, n.Deep → EndsAt n.nested behind →
    Ends (Walk s (linesOf n.nested) behind) (fun _ => True) (Tree.contents s n)
  | .mk _ nested, _, hdeep, hends => by
    rw [Tree.contents]
    exact walk_ofNests nested hdeep.2 hends

/-- **A walk over the nodes of nested lines meets these lines.** -/
theorem walk_ofNests : ∀ (ns : List Nest) {behind : List Line}, Layered ns → EndsAt ns behind →
    Ends (Walk s (linesOf ns) behind) (fun _ => True) (Tree.ofNests s ns)
  | [], _, _, _ => by
    rw [Tree.ofNests]
    exact Walk.nil
  | n :: ns, behind, h, hends => by
    have hrun := h.run hends
    have hcontents := walk_contents h.1 hrun.endsAt
    have hends' : EndsAt ns behind := fun m hm => hends m (List.mem_cons_of_mem n hm)
    have hrest := walk_ofNests ns h.2.2 hends'
    rw [Tree.ofNests, linesOf, lines_eq, List.cons_append]
    dsimp only
    split
    · next htag =>
      refine hcontents.bind fun inner hinner => hrest.bind fun rest hrest => ?_
      split
      · next hempty =>
        rw [List.isEmpty_iff.1 hempty] at hrun ⊢
        exact Walk.leaf htag hrun hrest
      · next hempty =>
        exact Walk.tag htag (linesOf_ne_nil fun hnil => hempty (List.isEmpty_iff.2 hnil)) hrun
          hinner hrest
    · next htag =>
      split
      · trivial
      · next helse =>
        split
        · next k subject hkeyword =>
          refine hcontents.bind fun body hbody => ?_
          refine (walk_otherwise ns k n.line.indent h.2.2 hends').bind fun found hfound => ?_
          cases found with
          | some parts =>
            -- The lines of the `else` part come first behind the run, so the run ends where they begin.
            obtain ⟨others, ls, hlines, hothers, hrest⟩ := hfound _ _ rfl
            rw [hlines, List.append_assoc] at hrun hbody
            rw [hlines]
            exact Walk.branch hkeyword hrun hbody hothers hrest
          | none =>
            refine hrest.bind fun rest hrest => ?_
            exact @Walk.branch s n.line k subject _ [] _ behind body [] rest hkeyword hrun hbody .none
              hrest
        · next hkeyword =>
          exact walk_single (Bool.eq_false_iff.2 htag) (Bool.eq_false_iff.2 helse) hkeyword hrun
            hcontents hrest

theorem walk_otherwise : ∀ (ns : List Nest) (k : Keyword) (level : Nat) {behind : List Line},
    Layered ns → EndsAt ns behind →
    Ends (fun found => ∀ otherwise rest, found = some (otherwise, rest) → ∃ others ls,
        linesOf ns = others ++ ls ∧ ElsePart s k level others (ls ++ behind) otherwise ∧
          Walk s ls behind rest)
      (fun _ => True) (Tree.otherwise? s k level ns)
  | [], _, _, _, _, _ => by
    rw [Tree.otherwise?]
    exact fun _ _ h => nomatch h
  | n :: ns, k, level, behind, h, hends => by
    have hrun := h.run hends
    have hcontents := walk_contents h.1 hrun.endsAt
    have hends' : EndsAt ns behind := fun m hm => hends m (List.mem_cons_of_mem n hm)
    have hrest := walk_ofNests ns h.2.2 hends'
    rw [Tree.otherwise?, linesOf, lines_eq, List.cons_append]
    split
    · exact fun _ _ h => nomatch h
    · next clause hclause =>
      obtain ⟨hk, hclause⟩ : k.takesElse = true ∧ n.line.elseClause? level = some clause := by
        split at hclause
        · next hk => exact ⟨hk, hclause⟩
        · cases hclause
      split
      · next hblank =>
        refine hcontents.bind fun body hbody => hrest.bind fun rest hrest => ?_
        rintro otherwise rest ⟨⟩
        exact ⟨n.line :: linesOf n.nested, linesOf ns, rfl, .plain hk hclause hblank hrun hbody, hrest⟩
      · next hblank =>
        split
        · trivial
        · next k' subject hchained =>
          refine hcontents.bind fun body hbody => ?_
          refine (walk_otherwise ns k' n.line.indent h.2.2 hends').bind fun found hfound => ?_
          cases found with
          | some parts =>
            obtain ⟨others, ls, hlines, hothers, hrest⟩ := hfound _ _ rfl
            rw [hlines, List.append_assoc] at hrun hbody
            rintro otherwise rest ⟨⟩
            exact ⟨n.line :: (linesOf n.nested ++ others), ls, by simp [hlines],
              .chained hk hclause (Bool.eq_false_iff.2 hblank) hchained hrun hbody hothers, hrest⟩
          | none =>
            refine hrest.bind fun rest hrest => ?_
            rintro otherwise rest ⟨⟩
            exact ⟨n.line :: (linesOf n.nested ++ []), linesOf ns, by simp,
              @ElsePart.chained s k k' level n.line clause subject _ [] _ body [] hk hclause
                (Bool.eq_false_iff.2 hblank) hchained hrun hbody .none, hrest⟩

end

/-- **The nodes of a list of lines have a walk that meets all of the lines.** -/
theorem walk_analyze {ls : List Line} {ts : List Tree} (h : analyze s ls = .ok ts) :
    Walk s ls [] ts := by
  have hends : EndsAt (Nest.ofLines ls) [] := fun _ _ _ hm => nomatch hm
  have hwalk := walk_ofNests (s := s) (Nest.ofLines ls) (Nest.layered_ofLines ls) hends
  unfold analyze at h
  rwa [h, Nest.linesOf_ofLines] at hwalk

end Stencil.Outline
